import HostScript.Proofs.Precedence
import HostScript.Proofs.Steps
import HostScript.Proofs.Tree

/-!
# HostScript.Proofs.Reading

Reading a script never goes wrong through a fault of its own.  Every reader takes at least one token
or leaves it to its caller to see that the script is at its end, so the fuel that goes with the
remaining tokens is never used up; and what is read is a tree as `IsExpression` and `IsStatement`
describe it.  Behind every reader a `break` or `continue` is allowed where it was before.
-/

namespace HostScript

/-- No function of the table has code yet. -/
def FunctionTable.Unplaced (t : FunctionTable) : Prop := ∀ f ∈ t.functions, f.start = 0

/-- A function is not placed yet when it enters the table. -/
theorem FunctionTable.Unplaced.register {t : FunctionTable} (h : t.Unplaced) (name : String)
    (parameters : List String) : (t.register name parameters).Unplaced := by
  intro f found
  rcases Array.mem_push.1 found with old | rfl
  · exact h f old
  · rfl

namespace Parse

variable {α β : Type} {input : Input} {state state' state'' : State}

/-! ## the tokens that are left -/

namespace Input

/-- How many tokens are left. -/
def left (input : Input) (state : State) : Nat := input.tokens.size - state.cursor

/-- The next token. -/
def token (input : Input) (state : State) : Token :=
  input.tokens[state.cursor + 0]?.getD input.eof

/-- The state behind the next token. -/
def advanced (input : Input) (state : State) : State :=
  if state.cursor < input.tokens.size then { state with cursor := state.cursor + 1 } else state

/-- Behind the last token there is nothing but the end of the script. -/
def Ends (input : Input) : Prop := input.eof.kind = .eof

/-- A step takes one of the tokens that are left, if there is one. -/
theorem left_advanced (input : Input) (state : State) :
    input.left (input.advanced state) = input.left state - 1 := by
  unfold advanced left
  split
  · exact Nat.sub_add_eq _ _ _
  · omega

/-- Moving on finds no function. -/
theorem functions_advanced (input : Input) (state : State) :
    (input.advanced state).functions = state.functions := by
  unfold advanced
  split <;> rfl

/-- Moving on allows nothing and forbids nothing. -/
theorem allowed_advanced (input : Input) (state : State) :
    (input.advanced state).allowed = state.allowed := by
  unfold advanced
  split <;> rfl

/-- A token that is not the end of the script is one of those that are left. -/
theorem left_pos (ends : input.Ends) (h : (input.token state).kind ≠ .eof) :
    0 < input.left state := by
  unfold token at h
  cases found : input.tokens[state.cursor + 0]? with
  | none =>
      rw [found] at h
      exact absurd ends h
  | some token =>
      obtain ⟨inside, -⟩ := Array.getElem?_eq_some_iff.1 found
      unfold left
      omega

end Input

/-- At least `k` tokens were taken, as far as there were so many, functions were only registered,
and the same is allowed as before. -/
structure Progress (input : Input) (k : Nat) (state state' : State) : Prop where
  left : input.left state' ≤ input.left state - k
  functions : state.functions.size ≤ state'.functions.size
  unplaced : state.functions.Unplaced → state'.functions.Unplaced
  allowed : state'.allowed = state.allowed

/-- A statement that may stand where the reader is: it defines functions that have been found, and
breaks and continues only where that is allowed. -/
abbrev State.Admits (state : State) : Node → Prop :=
  IsStatement state.functions.size state.allowed

namespace Progress

variable {j k : Nat}

theorem refl (state : State) : Progress input 0 state state :=
  ⟨Nat.le_refl _, Nat.le_refl _, id, rfl⟩

/-- Progress adds up. -/
theorem trans (first : Progress input j state state') (second : Progress input k state' state'') :
    Progress input (j + k) state state'' :=
  ⟨by have := first.left; have := second.left; omega,
    Nat.le_trans first.functions second.functions, second.unplaced ∘ first.unplaced,
    second.allowed.trans first.allowed⟩

/-- Whoever has taken many tokens has taken few. -/
theorem weaken (h : Progress input k state state') (le : j ≤ k) : Progress input j state state' :=
  ⟨by have := h.left; omega, h.functions, h.unplaced, h.allowed⟩

/-- Moving on is progress by one token. -/
theorem advanced (input : Input) (state : State) :
    Progress input 1 state (input.advanced state) :=
  ⟨Nat.le_of_eq (input.left_advanced state), Nat.le_of_eq (by rw [input.functions_advanced state]),
    fun h => by rwa [input.functions_advanced state], input.allowed_advanced state⟩

/-- What is allowed in a part of a statement is forgotten behind it. -/
theorem restore {inner : Allowed}
    (h : Progress input k { state with allowed := inner } state') :
    Progress input k state { state' with allowed := state.allowed } :=
  ⟨h.left, h.functions, h.unplaced, rfl⟩

/-- A statement is one behind those that follow it as well. -/
theorem admits {node : Node} (h : Progress input k state state') (good : state.Admits node) :
    state'.Admits node := by
  unfold State.Admits
  rw [h.allowed]
  exact IsStatement.mono h.functions node good

/-- The same of a statement that may be missing. -/
theorem admitsOptional {node : Option Node} (h : Progress input k state state')
    (good : IsOptional state.functions.size state.allowed node) :
    IsOptional state'.functions.size state'.allowed node := by
  rw [h.allowed]
  exact IsOptional.mono h.functions node good

end Progress

/-! ## running readers -/

section running

variable {x : Parse α} {f : α → Parse β} {post : β → State → Prop} {post' : α → State → Prop}

/-- A reader and what is read behind it. -/
theorem andThen (first : Faultless (x input) state post')
    (rest : ∀ a state', post' a state' → Faultless (f a input) state' post) :
    Faultless ((x >>= f) input) state post :=
  Faultless.bind (first.imp rest)

/-- What stands before the rest of a reader can be carried out: the current token is at hand. -/
theorem faultless_current {f : Token → Parse β} :
    Faultless ((current >>= f) input) state post ↔
      Faultless (f (input.token state) input) state post := Iff.rfl

/-- A token further on is at hand, or the end where there is none. -/
theorem faultless_peek {offset : Nat} {f : Token → Parse β} :
    Faultless ((peek offset >>= f) input) state post ↔
      Faultless (f (input.tokens[state.cursor + offset]?.getD input.eof) input) state post :=
  Iff.rfl

/-- The rest goes on behind the current token. -/
theorem faultless_advance {f : Unit → Parse β} :
    Faultless ((advance >>= f) input) state post ↔
      Faultless (f ⟨⟩ input) (input.advanced state) post := Iff.rfl

/-- The rest goes on one token before. -/
theorem faultless_retreat {f : Unit → Parse β} :
    Faultless ((retreat >>= f) input) state post ↔
      Faultless (f ⟨⟩ input) { state with cursor := state.cursor - 1 } post := Iff.rfl

/-- The rest gets the current token and goes on behind it. -/
theorem faultless_next {f : Token → Parse β} :
    Faultless ((next >>= f) input) state post ↔
      Faultless (f (input.token state) input) (input.advanced state) post := Iff.rfl

/-- The rest gets the number of tokens that are left. -/
theorem faultless_remaining {f : Nat → Parse β} :
    Faultless ((remaining >>= f) input) state post ↔
      Faultless (f (input.left state) input) state post := Iff.rfl

theorem faultless_get {f : State → Parse β} :
    Faultless ((get >>= f) input) state post ↔ Faultless (f state input) state post := Iff.rfl

/-- The rest goes on in the changed state. -/
theorem faultless_modify {g : State → State} {f : PUnit → Parse β} :
    Faultless ((modify g >>= f) input) state post ↔ Faultless (f ⟨⟩ input) (g state) post := Iff.rfl

theorem faultless_environment {f : Environment → Parse β} :
    Faultless ((environment >>= f) input) state post ↔
      Faultless (f input.environment input) state post := Iff.rfl

/-- The rest gets the flags of the state. -/
theorem faultless_allowed {f : Allowed → Parse β} :
    Faultless ((allowed >>= f) input) state post ↔ Faultless (f state.allowed input) state post :=
  Iff.rfl

theorem fail_faultless {l : Location} {cause : Cause} {post : α → State → Prop}
    (h : cause.isFault = false) : Faultless ((fail l cause : Parse α) input) state post := h

/-- Behind a failure nothing is read. -/
theorem fail_then_faultless {l : Location} {cause : Cause} (h : cause.isFault = false) :
    Faultless (((fail l cause : Parse α) >>= f) input) state post := h

/-- Both ways of a token that may be missing have to be without a fault. -/
theorem accept_faultless {kind : TokenKind} {f : Bool → Parse β}
    (yes : (input.token state).kind = kind →
      Faultless (f true input) (input.advanced state) post)
    (no : (input.token state).kind ≠ kind → Faultless (f false input) state post) :
    Faultless ((accept kind >>= f) input) state post := by
  have run : accept kind input state =
      if (input.token state).kind = kind then .ok true (input.advanced state)
      else .ok false state := by
    show (if (input.token state).kind = kind then _ else _ : Parse Bool) input state = _
    split <;> rfl
  refine Faultless.bind ?_
  by_cases same : (input.token state).kind = kind
  · exact .of_ok (by rw [run, if_pos same]) (yes same)
  · exact .of_ok (by rw [run, if_neg same]) (no same)

/-- A token that has to be there is no fault if it is missing. -/
theorem expect_faultless {kind : TokenKind} {f : Token → Parse β}
    (yes : (input.token state).kind = kind →
      Faultless (f (input.token state) input) (input.advanced state) post) :
    Faultless ((expect kind >>= f) input) state post := by
  refine Faultless.bind ?_
  show Faultless ((if (input.token state).kind = kind then _ else _ : Parse Token) input)
    (input.advanced state) _
  split
  next same => exact yes same
  next => exact fail_faultless rfl

/-- Something in brackets is found if it is where the brackets say what is allowed. -/
theorem bracket_meets {failed : CompileError → Prop} {enter : Allowed → Allowed}
    {restore : Allowed → Allowed → Allowed}
    (h : Meets failed (x input) { state with allowed := enter state.allowed } fun a state' =>
      post' a { state' with allowed := restore state.allowed state'.allowed }) :
    Meets failed (bracket enter restore x input) state post' := by
  unfold Meets bracket at *
  cases run : x input { state with allowed := enter state.allowed } with
  | ok a state' => simpa [run] using h
  | error e state' => simpa [run] using h

/-- A bracket is without a fault if its inside is, between the changes of the flags. -/
theorem bracket_faultless {enter : Allowed → Allowed} {restore : Allowed → Allowed → Allowed}
    (h : Faultless (x input) { state with allowed := enter state.allowed } fun a state' =>
      post' a { state' with allowed := restore state.allowed state'.allowed }) :
    Faultless (bracket enter restore x input) state post' :=
  bracket_meets h

end running

/-- A token that may be there or not, whichever is read behind it. -/
theorem skip_faultless {β : Type} {kind : TokenKind} {f : Bool → Parse β}
    {post : β → State → Prop}
    (rest : ∀ taken state', Progress input 0 state state' → Faultless (f taken input) state' post) :
    Faultless ((accept kind >>= f) input) state post :=
  accept_faultless
    (fun _ => rest true _ ((Progress.advanced input state).weaken (by omega)))
    (fun _ => rest false state (.refl state))

/-! ## repetitions -/

/-- Started with fewer than `bound` tokens left, a reader takes at least `k` tokens and finds what
`P` says, which may depend on the functions found so far and on what is allowed. -/
def Reads (input : Input) (bound k : Nat) (P : State → α → Prop) (x : Parse α) : Prop :=
  ∀ state, input.left state < bound →
    Faultless (x input) state fun a state' => Progress input k state state' ∧ P state' a

/-- A repeated reader comes to an end, since every item takes a token. -/
theorem collect_reads {item : Parse (Option α)} {P : State → α → Prop}
    (mono : ∀ state state' a, Progress input 0 state state' → P state a → P state' a) {bound : Nat}
    (items : ∀ state, input.left state < bound →
      Faultless (item input) state fun found state' =>
        Progress input 0 state state' ∧
          ∀ a ∈ found, input.left state' < input.left state ∧ P state' a)
    (fuel : Nat) :
    Reads input (min bound fuel) 0 (fun state found => ∀ a ∈ found, P state a)
      (collect item fuel) := by
  induction fuel with
  | zero => exact fun _ few => absurd few (by omega)
  | succ fuel ih =>
      intro state few
      unfold collect
      refine andThen (items state (by omega)) fun found state₁ ⟨moved, good⟩ => ?_
      cases found with
      | none => exact ⟨moved, nofun⟩
      | some a =>
          obtain ⟨less, holds⟩ := good a rfl
          refine andThen (ih state₁ (by omega)) fun rest state₂ ⟨moved₂, others⟩ => ?_
          refine ⟨moved.trans moved₂, fun b member => ?_⟩
          rcases List.mem_cons.1 member with rfl | member
          · exact mono _ _ _ moved₂ holds
          · exact others b member

/-- The items of a list all are as they should if each of them takes a token, since there are more
steps than tokens. -/
theorem many_reads {item : Parse (Option α)} {P : State → α → Prop}
    (mono : ∀ state state' a, Progress input 0 state state' → P state a → P state' a) {bound : Nat}
    (items : ∀ state, input.left state < bound →
      Faultless (item input) state fun found state' =>
        Progress input 0 state state' ∧
          ∀ a ∈ found, input.left state' < input.left state ∧ P state' a) :
    Reads input bound 0 (fun state found => ∀ a ∈ found, P state a) (many item) := by
  intro state few
  unfold many
  rw [faultless_remaining]
  exact collect_reads mono items _ state (by omega)

/-! ## expressions -/

section expressions

variable {bound : Nat} {nested : Bool → Parse Node}

/-- What readers are told about the reader for nested expressions. -/
abbrev ReadsExpressions (input : Input) (bound : Nat) (nested : Bool → Parse Node) : Prop :=
  ∀ withOperators, Reads input bound 1 (fun _ => IsExpression) (nested withOperators)

/-- Arguments end, since each of them takes a token. -/
theorem argumentsFrom_reads (ends : input.Ends) (inner : ReadsExpressions input bound nested)
    (opening : Location) (fuel : Nat) :
    Reads input (min bound fuel) 1 (fun _ => AreExpressions)
      (argumentsFrom nested opening fuel) := by
  induction fuel with
  | zero => exact fun _ few => absurd few (by omega)
  | succ fuel ih =>
      intro state few
      unfold argumentsFrom
      refine andThen (inner true state (by omega)) fun argument state₁ ⟨moved, good⟩ => ?_
      rw [faultless_next]
      have moved₁ := moved.trans (.advanced input state₁)
      cases separator : (input.token state₁).kind with
      | comma =>
          have pos := input.left_pos ends (by rw [separator]; nofun)
          have less := moved.left
          have less₁ := input.left_advanced state₁
          refine andThen (ih _ (by omega)) fun rest state₂ ⟨moved₂, others⟩ => ?_
          exact ⟨(moved₁.trans moved₂).weaken (by omega), good, others⟩
      | parenClose => exact ⟨moved₁.weaken (by omega), good, trivial⟩
      | _ => exact fail_faultless rfl

/-- The arguments of a call are expressions. -/
theorem arguments_reads (ends : input.Ends) (inner : ReadsExpressions input bound nested) :
    Reads input bound 1 (fun _ => AreExpressions) (arguments nested) := by
  intro state few
  unfold arguments
  refine expect_faultless fun opening => ?_
  have moved := Progress.advanced input state
  refine accept_faultless (fun closing => ?_) (fun more => ?_)
  · exact ⟨(moved.trans (.advanced input _)).weaken (by omega), trivial⟩
  · rw [if_neg Bool.false_ne_true, faultless_remaining]
    have less := moved.left
    refine (argumentsFrom_reads ends inner _ _ _ (by omega)).imp ?_
    exact fun _ _ ⟨moved₁, good⟩ => ⟨(moved.trans moved₁).weaken (by omega), good⟩

/-- A chain ends, since each link takes a token. -/
theorem chainLinks_reads (ends : input.Ends) (inner : ReadsExpressions input bound nested)
    (fuel : Nat) :
    Reads input (min bound fuel) 1 (fun _ => AreLinks) (chainLinks nested fuel) := by
  induction fuel with
  | zero => exact fun _ few => absurd few (by omega)
  | succ fuel ih =>
      intro state few
      unfold chainLinks
      rw [faultless_next]
      have moved := Progress.advanced input state
      have less := moved.left
      cases kind : (input.token state).kind with
      | identifier name =>
          have pos := input.left_pos ends (by rw [kind]; nofun)
          rw [faultless_current]
          have rest (link : Node) (state₁ : State)
              (moved₁ : Progress input 0 (input.advanced state) state₁)
              (good : IsLink link) (last : AreLinks link) :
              Faultless ((do
                if ← accept .period then
                  return .chain (input.token state).location link (← chainLinks nested fuel)
                else return link : Parse Node) input) state₁ fun links state' =>
                  Progress input 1 state state' ∧ AreLinks links := by
            have less₁ := moved₁.left
            refine accept_faultless (fun period => ?_) (fun _ => ?_)
            · have less₂ := input.left_advanced state₁
              refine andThen (ih _ (by omega)) fun rest state₂ ⟨moved₂, others⟩ => ?_
              exact ⟨((moved.trans moved₁).trans ((Progress.advanced input state₁).trans
                moved₂)).weaken (by omega), good, others⟩
            · exact ⟨moved.trans moved₁, last⟩
          split
          · refine andThen (arguments_reads ends inner _ (by omega))
              fun arguments state₁ ⟨moved₁, good⟩ => ?_
            exact rest _ state₁ (moved₁.weaken (by omega)) good good
          · exact rest _ _ (.refl _) trivial trivial
      | _ => exact fail_faultless rfl

/-- What goes on behind an expression makes it a chain with links. -/
theorem continueChain_reads (ends : input.Ends) (inner : ReadsExpressions input bound nested)
    (location : Location) {base : Node} (good : IsExpression base) :
    Reads input bound 0 (fun _ => IsExpression) (continueChain nested location base) := by
  intro state few
  unfold continueChain
  refine accept_faultless (fun period => ?_) (fun _ => ⟨.refl state, good⟩)
  have less := input.left_advanced state
  rw [if_pos rfl, faultless_remaining]
  refine andThen (chainLinks_reads ends inner _ _ (by omega)) fun links state₁ ⟨moved, others⟩ => ?_
  exact ⟨((Progress.advanced input state).trans moved).weaken (by omega), good, others⟩

/-- Whatever a name is taken for, it is an expression. -/
theorem identifierExpression_reads (ends : input.Ends) (inner : ReadsExpressions input bound nested)
    (location : Location) (name : String) :
    Reads input bound 0 (fun _ => IsExpression) (identifierExpression nested location name) := by
  intro state few
  unfold identifierExpression
  rw [faultless_environment, faultless_current, faultless_peek]
  have arguments_then (state₁ : State) (moved : Progress input 0 state state₁)
      (make : List Node → Node)
      (makes : ∀ nodes, AreExpressions nodes → IsExpression (make nodes)) :
      Faultless ((do
        let base ← pure (make (← arguments nested))
        continueChain nested location base : Parse Node) input) state₁ fun node state' =>
          Progress input 0 state state' ∧ IsExpression node := by
    have less := moved.left
    refine andThen (arguments_reads ends inner state₁ (by omega))
      fun nodes state₂ ⟨moved₁, good⟩ => ?_
    have less₁ := moved₁.left
    refine (continueChain_reads ends inner location (makes nodes good) state₂ (by omega)).imp ?_
    exact fun _ _ ⟨moved₂, whole⟩ => ⟨((moved.trans moved₁).trans moved₂).weaken (by omega), whole⟩
  have alone := continueChain_reads ends inner location
    (show IsExpression (.identifier location name) from trivial) state few
  cases (input.token state).kind with
  | parenOpen => exact arguments_then state (.refl state) (.call location name) fun _ good => good
  | period =>
      cases input.environment.template? name with
      | none => exact alone
      | some template =>
          cases (input.tokens[state.cursor + 1]?.getD input.eof).kind with
          | identifier function =>
              rw [faultless_advance, faultless_advance]
              exact arguments_then _ (((Progress.advanced input state).trans
                (.advanced input _)).weaken (by omega)) (.staticCall location name function)
                  fun _ good => good
          | _ => exact alone
  | _ => exact alone

/-- The arguments of a constructor and what is chained to its result. -/
theorem construction_reads (ends : input.Ends) (inner : ReadsExpressions input bound nested)
    (location : Location) (template : Template) (name function : String) :
    Reads input bound 0 (fun _ => IsExpression) (do
      let arguments ← arguments nested
      match template.staticFunction? function arguments.length with
      | none => fail location (.noConstructor name function arguments.length)
      | some _ =>
        continueChain nested location (.staticCall location name function arguments)) := by
  intro state few
  refine andThen (arguments_reads ends inner state few) fun nodes state₁ ⟨moved, good⟩ => ?_
  have less := moved.left
  cases template.staticFunction? function nodes.length with
  | none => exact fail_faultless rfl
  | some _ =>
      refine (continueChain_reads ends inner location
        (show IsExpression (.staticCall location name function nodes) from good)
        state₁ (by omega)).imp ?_
      exact fun _ _ ⟨moved₁, whole⟩ => ⟨(moved.trans moved₁).weaken (by omega), whole⟩

/-- A constructor call is an expression. -/
theorem newExpression_reads (ends : input.Ends) (inner : ReadsExpressions input bound nested)
    (location : Location) :
    Reads input bound 0 (fun _ => IsExpression) (newExpression nested location) := by
  intro state few
  unfold newExpression
  rw [faultless_next]
  have moved := Progress.advanced input state
  cases (input.token state).kind with
  | identifier name =>
      rw [faultless_environment]
      cases found : input.environment.template? name with
      | none => exact fail_faultless rfl
      | some template =>
          have rest (function : String) {state₁ : State} (moved₁ : Progress input 0 state state₁) :=
            have less := moved₁.left
            (construction_reads ends inner location template name function state₁ (by omega)).imp
              fun _ _ reads => And.intro (moved₁.trans reads.1) reads.2
          refine accept_faultless (fun period => ?_) (fun _ => ?_)
          · rw [if_pos rfl, faultless_next]
            cases (input.token (input.advanced (input.advanced state))).kind with
            | identifier function =>
                exact rest function ((moved.trans ((Progress.advanced input _).trans
                  (.advanced input _))).weaken (by omega))
            | _ => exact fail_then_faultless rfl
          · exact rest _ (moved.weaken (by omega))
  | _ => exact fail_faultless rfl

/-- An operand takes its first token, which is not the end of the script. -/
theorem operand_reads (ends : input.Ends) (inner : ReadsExpressions input bound nested) :
    Reads input (bound + 1) 1 (fun _ => IsExpression) (operand nested) := by
  intro state few
  unfold operand
  rw [faultless_next]
  have moved := Progress.advanced input state
  have less := moved.left
  cases kind : (input.token state).kind with
  | number value | string value => exact ⟨moved, trivial⟩
  | identifier name =>
      have pos := input.left_pos ends (by rw [kind]; nofun)
      refine (identifierExpression_reads ends inner _ name _ (by omega)).imp ?_
      exact fun _ _ ⟨moved₁, good⟩ => ⟨moved.trans moved₁, good⟩
  | parenOpen =>
      have pos := input.left_pos ends (by rw [kind]; nofun)
      refine andThen (inner true _ (by omega)) fun node state₁ ⟨moved₁, good⟩ => ?_
      refine expect_faultless fun _ => ?_
      exact ⟨((moved.trans moved₁).trans (.advanced input _)).weaken (by omega), good⟩
  | operator op =>
      have pos := input.left_pos ends (by rw [kind]; nofun)
      cases op with
      | sub =>
          refine andThen (inner false _ (by omega)) fun node state₁ ⟨moved₁, good⟩ => ?_
          exact ⟨(moved.trans moved₁).weaken (by omega), good⟩
      | _ => exact fail_faultless rfl
  | unary op =>
      have pos := input.left_pos ends (by rw [kind]; nofun)
      refine andThen (inner false _ (by omega)) fun node state₁ ⟨moved₁, good⟩ => ?_
      exact ⟨(moved.trans moved₁).weaken (by omega), good⟩
  | adjust direction =>
      have pos := input.left_pos ends (by rw [kind]; nofun)
      refine andThen (inner false _ (by omega)) fun node state₁ ⟨moved₁, good⟩ => ?_
      exact ⟨(moved.trans moved₁).weaken (by omega), nofun, good⟩
  | keyword word =>
      have pos := input.left_pos ends (by rw [kind]; nofun)
      cases word with
      | nullKw => exact ⟨moved, trivial⟩
      | newKw =>
          refine (newExpression_reads ends inner _ _ (by omega)).imp ?_
          exact fun _ _ ⟨moved₁, good⟩ => ⟨moved.trans moved₁, good⟩
      | _ => exact fail_faultless rfl
  | _ => exact fail_faultless rfl

/-- An increment behind an expression gives an expression. -/
theorem adjusted_reads {node : Node} (good : IsExpression node) :
    Reads input bound 0 (fun _ => IsExpression) (adjusted node) := by
  intro state few
  unfold adjusted
  rw [faultless_current]
  cases (input.token state).kind with
  | adjust direction =>
      rw [faultless_advance]
      exact ⟨(Progress.advanced input state).weaken (by omega), nofun, good⟩
  | _ => exact ⟨.refl state, good⟩

/-- An operator takes its token, so there is progress with each operand. -/
theorem operatorAndOperand_faultless (ends : input.Ends)
    (inner : ReadsExpressions input bound nested) (few : input.left state < bound + 1) :
    Faultless (operatorAndOperand nested input) state fun found state' =>
      Progress input 0 state state' ∧
        ∀ p ∈ found, input.left state' < input.left state ∧ IsExpression p.2 := by
  unfold operatorAndOperand
  rw [faultless_current]
  have moved := Progress.advanced input state
  cases kind : (input.token state).kind with
  | operator op =>
      have pos := input.left_pos ends (by rw [kind]; nofun)
      have less := moved.left
      rw [faultless_advance]
      refine andThen (inner false _ (by omega)) fun node state₁ ⟨moved₁, good⟩ => ?_
      refine ⟨(moved.trans moved₁).weaken (by omega), fun p member => ?_⟩
      obtain rfl := Option.some.inj member
      exact ⟨by have := moved₁.left; omega, good⟩
  | _ => exact ⟨.refl state, nofun⟩

/-- The operators and operands behind an operand make one expression with it. -/
theorem operators_reads (ends : input.Ends) (inner : ReadsExpressions input bound nested)
    {first : Node} (good : IsExpression first) :
    Reads input (bound + 1) 0 (fun _ => IsExpression) (operators nested first) := by
  intro state few
  unfold operators
  have items : Reads input (bound + 1) 0 (fun _ found => ∀ p ∈ found, IsExpression p.2)
      (many (operatorAndOperand nested)) :=
    many_reads (fun _ _ _ _ h => h) fun _ => operatorAndOperand_faultless ends inner
  refine andThen (items state few) fun rest state₁ ⟨moved, others⟩ => ?_
  have folds : (Precedence.fold? Precedence.join (first, rest)).isSome := Precedence.fold?_isSome _
  obtain ⟨tree, folded⟩ := Option.isSome_iff_exists.1 folds
  rw [folded]
  exact ⟨moved,
    Precedence.fold?_operands (fun _ _ _ left right => ⟨left, right⟩) good others folded⟩

/-- If all expressions with few tokens left are read well, so are those with one token more. -/
theorem expressionStep_reads (ends : input.Ends) (inner : ReadsExpressions input bound nested) :
    ReadsExpressions input (bound + 1) (expressionStep nested) := by
  intro withOperators state few
  unfold expressionStep
  refine andThen (operand_reads ends inner state few) fun node state₁ ⟨moved, good⟩ => ?_
  have less := moved.left
  refine andThen (adjusted_reads good state₁ (show _ < bound + 1 by omega))
    fun node state₂ ⟨moved₁, good⟩ => ?_
  have less₁ := moved₁.left
  cases withOperators with
  | true =>
      refine (operators_reads ends inner good state₂ (by omega)).imp ?_
      exact fun _ _ ⟨moved₂, whole⟩ =>
        ⟨((moved.trans moved₁).trans moved₂).weaken (by omega), whole⟩
  | false => exact ⟨moved.trans moved₁, good⟩

/-- With enough fuel for the tokens that are left there is no fault, by induction on the fuel. -/
theorem expressionAt_reads (ends : input.Ends) (fuel : Nat) :
    ReadsExpressions input fuel (expressionAt fuel) := by
  induction fuel with
  | zero => exact fun _ _ few => absurd few (by omega)
  | succ fuel ih => exact expressionStep_reads ends ih

/-- Reading an expression succeeds with one or fails without a fault. -/
theorem expression_reads (ends : input.Ends) (withOperators : Bool) (bound : Nat) :
    Reads input bound 1 (fun _ => IsExpression) (expression withOperators) := by
  intro state _
  unfold expression
  rw [faultless_remaining]
  exact expressionAt_reads ends _ withOperators state (by omega)

end expressions

/-! ## blocks and switches -/

section statements

variable {bound : Nat} {nested : Parse Node}

/-- What readers are told about the reader for nested statements. -/
abbrev ReadsStatement (input : Input) (bound : Nat) (x : Parse Node) : Prop :=
  Reads input bound 1 State.Admits x

/-- A part of a statement is read where the part says what is allowed. -/
theorem within_faultless (reads : ReadsStatement input bound nested) (inner : Allowed)
    (few : input.left state < bound) :
    Faultless (within inner nested input) state fun node state' =>
      Progress input 1 state state' ∧ IsStatement state'.functions.size inner node := by
  refine bracket_faultless ((reads { state with allowed := inner } few).imp ?_)
  rintro node state' ⟨moved, good⟩
  have same : state'.allowed = inner := moved.allowed
  exact ⟨moved.restore, same ▸ good⟩

/-- A list of statements, from each of them. -/
theorem areStatements_of_forall {n : Nat} {allowed : Allowed} : {nodes : List Node} →
    (∀ node ∈ nodes, IsStatement n allowed node) → AreStatements n allowed nodes
  | [], _ => trivial
  | _ :: _, h => ⟨h _ List.mem_cons_self,
    areStatements_of_forall fun node member => h node (List.mem_cons_of_mem _ member)⟩

/-- Statements that follow each other are all read where the same is allowed. -/
theorem statements_reads {item : Parse (Option Node)}
    (items : ∀ state, input.left state < bound →
      Faultless (item input) state fun found state' =>
        Progress input 0 state state' ∧
          ∀ node ∈ found, input.left state' < input.left state ∧ state'.Admits node) :
    Reads input bound 0 (fun state => AreStatements state.functions.size state.allowed)
      (many item) := by
  intro state few
  refine (many_reads (P := State.Admits) (fun _ _ _ => Progress.admits) items state few).imp ?_
  exact fun _ _ ⟨moved, good⟩ => ⟨moved, areStatements_of_forall good⟩

/-- A statement that is read where the script is not at its end takes a token. -/
theorem item_faultless (ends : input.Ends) (inner : ReadsStatement input bound nested)
    (few : input.left state < bound) (more : (input.token state).kind ≠ .eof) :
    Faultless ((do return some (← nested) : Parse (Option Node)) input) state fun found state' =>
      Progress input 0 state state' ∧
        ∀ node ∈ found, input.left state' < input.left state ∧ state'.Admits node := by
  have pos := input.left_pos ends more
  refine andThen (inner state few) fun node state₁ ⟨moved, good⟩ => ?_
  refine ⟨moved.weaken (by omega), fun other member => ?_⟩
  obtain rfl := Option.some.inj member
  exact ⟨by have := moved.left; omega, good⟩

/-- A block is a statement. -/
theorem block_reads (ends : input.Ends) (inner : ReadsStatement input bound nested)
    (opening : Location) : Reads input bound 0 State.Admits (block nested opening) := by
  intro state few
  unfold block
  refine andThen (statements_reads (fun state few => ?_) state few) fun _ _ found => found
  unfold blockItem
  rw [faultless_current]
  cases kind : (input.token state).kind with
  | braceClose =>
      rw [faultless_advance]
      exact ⟨(Progress.advanced input state).weaken (by omega), nofun⟩
  | eof => exact fail_faultless rfl
  | _ => exact item_faultless ends inner few (by rw [kind]; nofun)

/-- The body of a case is a statement. -/
theorem caseBody_reads (ends : input.Ends) (inner : ReadsStatement input bound nested)
    (switch location : Location) :
    Reads input bound 0 State.Admits (caseBody nested switch location) := by
  intro state few
  unfold caseBody
  refine andThen (statements_reads (fun state few => ?_) state few) fun _ _ found => found
  unfold caseItem
  rw [faultless_current]
  have read (more : (input.token state).kind ≠ .eof) := item_faultless ends inner few more
  cases kind : (input.token state).kind with
  | braceClose => exact ⟨.refl state, nofun⟩
  | eof => exact fail_faultless rfl
  | keyword word =>
      cases word with
      | caseKw | defaultKw => exact ⟨.refl state, nofun⟩
      | _ => exact read (by rw [kind]; nofun)
  | _ => exact read (by rw [kind]; nofun)

/-- The cases of a switch; `fallback` is a statement already when the reader starts. -/
theorem casesFrom_faultless (ends : input.Ends) (inner : ReadsStatement input bound nested)
    (switch : Location) (fuel : Nat) (fallback : Option Node) (state : State)
    (few : input.left state < min bound fuel)
    (before : IsOptional state.functions.size state.allowed fallback) :
    Faultless (casesFrom nested switch fuel fallback input) state fun found state' =>
      Progress input 0 state state' ∧ AreCases state'.functions.size state'.allowed found.1 ∧
        IsOptional state'.functions.size state'.allowed found.2 := by
  induction fuel generalizing state fallback with
  | zero => omega
  | succ fuel ih =>
      unfold casesFrom
      rw [faultless_next]
      have moved := Progress.advanced input state
      have less := moved.left
      cases kind : (input.token state).kind with
      | braceClose =>
          exact ⟨moved.weaken (by omega), trivial, moved.admitsOptional before⟩
      | keyword word =>
          have pos := input.left_pos ends (by rw [kind]; nofun)
          cases word with
          | caseKw =>
              refine andThen (expression_reads ends true bound _ (by omega))
                fun value state₁ ⟨moved₁, good⟩ => ?_
              refine expect_faultless fun _ => ?_
              have toBody := (moved.trans moved₁).trans (.advanced input state₁)
              have less₁ := toBody.left
              refine andThen (caseBody_reads ends inner _ _ _ (by omega))
                fun body state₂ ⟨moved₂, statement⟩ => ?_
              have toRest := toBody.trans moved₂
              have less₂ := toRest.left
              refine andThen (ih fallback state₂ (by omega) (toRest.admitsOptional before))
                fun ⟨cases, last⟩ state₃ ⟨moved₃, others, final⟩ => ?_
              exact ⟨(toRest.trans moved₃).weaken (by omega),
                ⟨good, moved₃.admits statement, others⟩, final⟩
          | defaultKw =>
              cases fallback with
              | some _ => exact fail_then_faultless rfl
              | none =>
                  refine expect_faultless fun _ => ?_
                  have toBody := moved.trans (.advanced input (input.advanced state))
                  have less₁ := toBody.left
                  refine andThen (caseBody_reads ends inner _ _ _ (by omega))
                    fun body state₁ ⟨moved₁, statement⟩ => ?_
                  have toRest := toBody.trans moved₁
                  have less₂ := toRest.left
                  refine (ih (some body) state₁ (by omega) statement).imp ?_
                  exact fun _ _ ⟨moved₂, others⟩ =>
                    ⟨(toRest.trans moved₂).weaken (by omega), others⟩
          | _ => exact fail_faultless rfl
      | _ => exact fail_faultless rfl

/-- The cases say whether a break is allowed in them.  They leave it as it is whether a continue is,
so behind them both are as before. -/
theorem inCases_faultless (ends : input.Ends) (inner : ReadsStatement input bound nested)
    (switch : Location) (kind : SwitchKind) (few : input.left state < bound) :
    Faultless (inCases kind (casesFrom nested switch (input.left state + 1) none) input) state
      fun found state' => Progress input 0 state state' ∧
        AreCases state'.functions.size (state'.allowed.cases kind) found.1 ∧
        IsOptional state'.functions.size (state'.allowed.cases kind) found.2 := by
  refine bracket_faultless ((casesFrom_faultless ends inner switch _ none
    { state with allowed := state.allowed.cases kind } ?_ trivial).imp ?_)
  · exact Nat.lt_min.2 ⟨few, Nat.lt_succ_self _⟩
  · rintro found state' ⟨moved, cases, fallback⟩
    have inside : state'.allowed = state.allowed.cases kind := moved.allowed
    have back : { state'.allowed with leave := state.allowed.leave } = state.allowed := by
      rw [inside]
      rfl
    rw [inside] at cases fallback
    rw [back]
    exact ⟨moved.restore, cases, fallback⟩

/-- A switch is a statement where it stands.  Its bodies may have breaks that it takes. -/
theorem switch_reads (ends : input.Ends) (inner : ReadsStatement input bound nested)
    (location : Location) (kind : SwitchKind) :
    Reads input bound 0 State.Admits (switch nested location kind) := by
  intro state few
  unfold switch
  refine andThen (expression_reads ends true bound state few) fun value state₁ ⟨moved, good⟩ => ?_
  refine expect_faultless fun _ => ?_
  rw [faultless_remaining]
  have toCases := moved.trans (.advanced input state₁)
  have less := toCases.left
  refine andThen (inCases_faultless ends inner location kind (by omega))
    fun found state₂ ⟨moved₁, cases, fallback⟩ => ?_
  exact ⟨(toCases.trans moved₁).weaken (by omega), good, cases, fallback⟩

/-! ## loops, labels and directives -/

/-- A for loop is a statement where it stands.  Its body may have breaks and continues that it
takes, its last part only breaks. -/
theorem forLoop_reads (ends : input.Ends) (inner : ReadsStatement input bound nested)
    (location : Location) : Reads input bound 0 State.Admits (forLoop nested location) := by
  intro state few
  unfold forLoop
  refine skip_faultless fun parenthesized state₁ moved₁ => ?_
  have less₁ := moved₁.left
  refine andThen (inner state₁ (by omega)) fun init state₂ ⟨moved₂, first⟩ => ?_
  have less₂ := moved₂.left
  refine andThen (expression_reads ends true bound state₂ (by omega))
    fun condition state₃ ⟨moved₃, test⟩ => ?_
  refine skip_faultless fun _ state₄ moved₄ => ?_
  have less₄ := (moved₃.trans moved₄).left
  refine andThen (within_faultless inner .loopPost (show input.left state₄ < bound by omega))
    fun post state₅ ⟨moved₅, step⟩ => ?_
  have toPost := ((moved₁.trans moved₂).trans (moved₃.trans moved₄)).trans moved₅
  have rest (state₆ : State) (moved₆ : Progress input 0 state₅ state₆) :
      Faultless ((do
        return Node.forLoop location init condition post (← within .loopBody nested)) input)
        state₆ fun node state' => Progress input 0 state state' ∧ state'.Admits node := by
    have toBody := toPost.trans moved₆
    have less := toBody.left
    refine andThen (within_faultless inner .loopBody (by omega))
      fun body state₇ ⟨moved₇, turn⟩ => ?_
    have fromInit := (((moved₃.trans moved₄).trans moved₅).trans moved₆).trans moved₇
    exact ⟨(toBody.trans moved₇).weaken (by omega), fromInit.admits first, test,
      IsStatement.mono (moved₆.trans moved₇).functions post step, turn⟩
  cases parenthesized with
  | true => exact expect_faultless fun _ => rest _ ((Progress.advanced input _).weaken (by omega))
  | false => exact rest state₅ (.refl state₅)

/-- Any name or string can be that of a label. -/
theorem labelName_reads : Reads input bound 0 (fun _ _ => True) labelName := by
  intro state _
  unfold labelName
  rw [faultless_next]
  cases (input.token state).kind with
  | identifier | string => exact ⟨(Progress.advanced input state).weaken (by omega), trivial⟩
  | _ => exact fail_faultless rfl

/-- A label before a statement, or before nothing at the end of a block. -/
theorem label_reads (inner : ReadsStatement input bound nested) (location : Location) :
    Reads input bound 0 State.Admits (label nested location) := by
  intro state few
  unfold label
  refine andThen (labelName_reads state few) fun name state₁ ⟨moved, _⟩ => ?_
  refine skip_faultless fun _ state₂ moved₁ => ?_
  have toStatement := moved.trans moved₁
  have less := toStatement.left
  have read := (inner state₂ (by omega)).imp fun node state₃ ⟨moved₂, good⟩ =>
    And.intro ((toStatement.trans moved₂).weaken (Nat.zero_le _)) good
  rw [faultless_current]
  cases (input.token state₂).kind with
  | braceClose | eof => exact ⟨toStatement, trivial⟩
  | _ => exact andThen read fun node _ good => good

/-- Directives that are nothing but their name leave nothing behind. -/
theorem directive_reads (plain : input.environment.hostDirectives = []) (location : Location) :
    Reads input bound 0 State.Admits (directive nested location) := by
  intro state few
  unfold directive
  rw [faultless_next]
  have moved := (Progress.advanced input state).weaken (Nat.zero_le 1)
  have known (name : String) (rule : DirectiveRule)
      (h : input.environment.directive? name = some rule) : rule = .marker := by
    unfold Environment.directive? at h
    rw [plain] at h
    obtain ⟨-, same⟩ := Option.ite_none_right_eq_some.1 h
    exact (Option.some.inj same).symm
  cases (input.token state).kind with
  | identifier name =>
      rw [faultless_environment]
      cases found : input.environment.directive? (TokenKind.identifier name).text with
      | none => exact fail_faultless rfl
      | some rule =>
          obtain rfl := known _ rule found
          exact ⟨⟨moved.left, moved.functions, moved.unplaced, moved.allowed⟩, rfl, rfl⟩
  | keyword word =>
      rw [faultless_environment]
      cases found : input.environment.directive? (TokenKind.keyword word).text with
      | none => exact fail_faultless rfl
      | some rule =>
          obtain rfl := known _ rule found
          exact ⟨⟨moved.left, moved.functions, moved.unplaced, moved.allowed⟩, rfl, rfl⟩
  | _ => exact fail_faultless rfl

/-! ## functions -/

/-- Parameters end, since each of them takes a token. -/
theorem parametersFrom_reads (ends : input.Ends) (function : String) (fuel : Nat)
    (parameters : List String) :
    Reads input fuel 0 (fun _ _ => True) (parametersFrom function fuel parameters) := by
  induction fuel generalizing parameters with
  | zero => exact fun _ few => absurd few (by omega)
  | succ fuel ih =>
      intro state few
      unfold parametersFrom
      rw [faultless_next]
      have moved := Progress.advanced input state
      have less := moved.left
      cases kind : (input.token state).kind with
      | identifier parameter =>
          have pos := input.left_pos ends (by rw [kind]; nofun)
          show Faultless ((if parameter ∈ parameters then _ else _ : Parse (List String)) input) _ _
          split
          · exact fail_then_faultless rfl
          · rw [faultless_next]
            have toNext := moved.trans (.advanced input (input.advanced state))
            have less₁ := toNext.left
            cases (input.token (input.advanced state)).kind with
            | comma =>
                refine (ih _ _ (by omega)).imp fun _ _ ⟨moved₁, _⟩ => ?_
                exact ⟨(toNext.trans moved₁).weaken (by omega), trivial⟩
            | parenClose => exact ⟨toNext.weaken (by omega), trivial⟩
            | _ => exact fail_faultless rfl
      | _ => exact fail_faultless rfl

/-- The parameters of a function are read without a fault. -/
theorem parameters_reads (ends : input.Ends) (function : String) :
    Reads input bound 0 (fun _ _ => True) (parameters function) := by
  intro state few
  unfold parameters
  refine expect_faultless fun _ => ?_
  have moved := Progress.advanced input state
  refine accept_faultless (fun _ => ?_) (fun _ => ?_)
  · exact ⟨(moved.trans (.advanced input _)).weaken (by omega), trivial⟩
  · rw [if_neg Bool.false_ne_true, faultless_remaining]
    refine (parametersFrom_reads ends function _ [] _ (by omega)).imp fun _ _ ⟨moved₁, _⟩ => ?_
    exact ⟨(moved.trans moved₁).weaken (by omega), trivial⟩

/-- A new function gets a number of its own. -/
theorem register_reads (name : String) (parameters : List String) (location : Location) :
    Reads input bound 0 (fun state id => id < state.functions.size)
      (register name parameters location) := by
  intro state few
  unfold register
  rw [faultless_get, faultless_environment]
  cases rival? input.environment state.functions name parameters.length with
  | some rival => exact fail_faultless rfl
  | none =>
      have size : (state.functions.register name parameters).size = state.functions.size + 1 := by
        simp [FunctionTable.size, FunctionTable.register]
      have less : state.functions.size < (state.functions.register name parameters).size := by omega
      exact ⟨⟨Nat.le_refl _, Nat.le_of_lt less, fun h => h.register name parameters, rfl⟩, less⟩

/-- A function is a statement anywhere, with nothing allowed in its body. -/
theorem function_reads (ends : input.Ends) (inner : ReadsStatement input bound nested)
    (location : Location) : Reads input bound 0 State.Admits (function nested location) := by
  intro state few
  unfold function
  rw [faultless_next]
  have moved := Progress.advanced input state
  have less := moved.left
  cases (input.token state).kind with
  | identifier name =>
      refine andThen (parameters_reads ends name _ (show _ < bound by omega))
        fun parameters state₁ ⟨moved₁, _⟩ => ?_
      have less₁ := moved₁.left
      rw [faultless_current]
      split
      next => exact fail_then_faultless rfl
      next =>
        refine andThen (within_faultless inner .nowhere (by omega))
          fun body state₂ ⟨moved₂, good⟩ => ?_
        have less₂ := moved₂.left
        refine andThen (register_reads name parameters _ state₂ (show _ < bound by omega))
          fun id state₃ ⟨moved₃, new⟩ => ?_
        exact ⟨(((moved.trans moved₁).trans moved₂).trans moved₃).weaken (by omega), new,
          IsStatement.mono moved₃.functions body good⟩
  | _ => exact fail_faultless rfl

/-! ## statements -/

/-- An expression that is not assigned to makes a statement if it steps a variable or calls
something. -/
theorem callStatement_faultless {state₁ : State} {node : Node} (location : Location) :
    IsExpression node → Progress input 1 state state₁ →
    Faultless ((match node with
      | .adjust location _ target direction => return .adjust location .statement target direction
      | .call .. | .staticCall .. | .chain .. => return .discard location node
      | other => fail other.location (.notAStatement other.kindName) : Parse Node) input) state₁
      fun node state' => Progress input 1 state state' ∧ state'.Admits node := by
  intro good moved
  cases node with
  | adjust => exact ⟨moved, rfl, good.2⟩
  | call | staticCall | chain => exact ⟨moved, good⟩
  | _ => exact fail_faultless rfl

/-- An assignment, an increment or a call is a statement anywhere. -/
theorem expressionStatement_reads (ends : input.Ends) (location : Location) :
    ReadsStatement input bound (expressionStatement location) := by
  intro state few
  unfold expressionStatement
  refine andThen (expression_reads ends false bound state few) fun node state₁ ⟨moved, good⟩ => ?_
  have less := moved.left
  rw [faultless_current]
  cases (input.token state₁).kind with
  | set op =>
      rw [faultless_advance]
      have less₁ := input.left_advanced state₁
      refine andThen (expression_reads ends true bound _ (by omega))
        fun value state₂ ⟨moved₁, second⟩ => ?_
      exact ⟨((moved.trans (.advanced input state₁)).trans moved₁).weaken (by omega), good, second⟩
  | _ => exact callStatement_faultless location good moved

/-- What a return statement returns is an expression, if it returns anything. -/
theorem returnValue_reads (ends : input.Ends) :
    Reads input bound 0 (fun _ value => ∀ node ∈ value, IsExpression node) returnValue := by
  intro state few
  unfold returnValue
  rw [faultless_current]
  have read := expression_reads ends true bound state few
  have value : Faultless ((do return some (← expression true) : Parse (Option Node)) input) state
      fun value state' => Progress input 0 state state' ∧ ∀ node ∈ value, IsExpression node := by
    refine andThen read fun node _ ⟨moved, good⟩ => ⟨moved.weaken (by omega), fun _ member => ?_⟩
    exact Option.some.inj member ▸ good
  cases (input.token state).kind with
  | semicolon | braceClose | eof => exact ⟨.refl state, nofun⟩
  | _ => exact value

/-- The state before the next token was taken, or the last token if there was none. -/
theorem Progress.retreat {state₁ : State}
    (h : Progress input 1 { input.advanced state with cursor := (input.advanced state).cursor - 1 }
      state₁) : Progress input 1 state state₁ := by
  refine ⟨?_, by rw [← input.functions_advanced state]; exact h.functions,
    by rw [← input.functions_advanced state]; exact h.unplaced,
    h.allowed.trans (input.allowed_advanced state)⟩
  have less := h.left
  unfold Input.advanced Input.left at *
  split at less
  · simpa using less
  · dsimp only at less
    omega

/-- A statement, from behind its first token on. -/
theorem statementFrom_faultless (ends : input.Ends) (plain : input.environment.hostDirectives = [])
    (inner : ReadsStatement input bound nested) (few : input.left state < bound + 1) :
    Faultless (statementFrom nested (input.token state) input) (input.advanced state)
      fun node state' => Progress input 1 state state' ∧ state'.Admits node := by
  have moved := Progress.advanced input state
  have less := moved.left
  -- the readers behind a keyword start where a token has been taken
  have behind {x : Parse Node} (more : (input.token state).kind ≠ .eof)
      (reads : Reads input bound 0 State.Admits x) :
      Faultless (x input) (input.advanced state) fun node state' =>
        Progress input 1 state state' ∧ state'.Admits node := by
    have pos := input.left_pos ends more
    exact (reads _ (by omega)).imp fun _ _ ⟨moved₁, good⟩ => ⟨moved.trans moved₁, good⟩
  have other : Faultless ((do
      retreat
      expressionStatement (input.token state).location : Parse Node) input) (input.advanced state)
      fun node state' => Progress input 1 state state' ∧ state'.Admits node := by
    rw [faultless_retreat]
    refine (expressionStatement_reads ends _ _ (Nat.lt_succ_self _)).imp ?_
    exact fun _ _ ⟨moved₁, good⟩ => ⟨moved₁.retreat, good⟩
  unfold statementFrom
  cases kind : (input.token state).kind with
  | braceOpen => exact behind (by rw [kind]; nofun) (block_reads ends inner _)
  | pound => exact behind (by rw [kind]; nofun) (directive_reads plain _)
  | keyword word =>
      have more : (input.token state).kind ≠ .eof := by rw [kind]; nofun
      have pos := input.left_pos ends more
      cases word with
      | returnKw =>
          refine andThen (returnValue_reads ends _ (show _ < bound by omega))
            fun value state₁ ⟨moved₁, good⟩ => ⟨moved.trans moved₁, ?_⟩
          cases value with
          | none => exact trivial
          | some node => exact good node rfl
      | ifKw =>
          refine andThen (expression_reads ends true bound _ (by omega))
            fun condition state₁ ⟨moved₁, test⟩ => ?_
          have less₁ := moved₁.left
          refine andThen (inner state₁ (by omega)) fun accepted state₂ ⟨moved₂, yes⟩ => ?_
          have toElse := (moved.trans moved₁).trans moved₂
          refine accept_faultless (fun _ => ?_) (fun _ => ?_)
          · have less₂ := (toElse.trans (.advanced input state₂)).left
            refine andThen (inner _ (by omega)) fun otherwise state₃ ⟨moved₃, no⟩ => ?_
            have toEnd := (Progress.advanced input state₂).trans moved₃
            exact ⟨(toElse.trans toEnd).weaken (by omega), test, toEnd.admits yes, no⟩
          · exact ⟨toElse.weaken (by omega), test, yes, trivial⟩
      | switchKw => exact behind more (switch_reads ends inner _ .switch)
      | selectKw => exact behind more (switch_reads ends inner _ .select)
      | whileKw =>
          refine andThen (expression_reads ends true bound _ (by omega))
            fun condition state₁ ⟨moved₁, test⟩ => ?_
          have less₁ := moved₁.left
          refine andThen (within_faultless inner .loopBody (by omega))
            fun body state₂ ⟨moved₂, turn⟩ => ?_
          exact ⟨((moved.trans moved₁).trans moved₂).weaken (by omega), test, turn⟩
      | doKw =>
          refine andThen (within_faultless inner .loopBody (by omega))
            fun body state₁ ⟨moved₁, turn⟩ => ?_
          refine expect_faultless fun _ => ?_
          have toTest := moved₁.trans (.advanced input state₁)
          have less₁ := toTest.left
          refine andThen (expression_reads ends true bound _ (by omega))
            fun condition state₂ ⟨moved₂, test⟩ => ?_
          exact ⟨((moved.trans toTest).trans moved₂).weaken (by omega),
            IsStatement.mono ((Progress.advanced input state₁).trans moved₂).functions body turn,
            test⟩
      | forKw => exact behind more (forLoop_reads ends inner _)
      | breakKw =>
          rw [faultless_allowed]
          show Faultless
            ((if (input.advanced state).allowed.leave then _ else _ : Parse Node) input) _ _
          split
          next may => exact ⟨moved, may⟩
          next => exact fail_faultless rfl
      | continueKw =>
          rw [faultless_allowed]
          show Faultless
            ((if (input.advanced state).allowed.proceed then _ else _ : Parse Node) input) _ _
          split
          next may => exact ⟨moved, may⟩
          next => exact fail_faultless rfl
      | labelKw => exact behind more (label_reads inner _)
      | jumpKw | callKw =>
          exact andThen (labelName_reads _ (Nat.lt_succ_self _)) fun _ _ ⟨moved₁, _⟩ =>
            ⟨moved.trans moved₁, trivial⟩
      | backKw => exact ⟨moved, trivial⟩
      | functionKw => exact behind more (function_reads ends inner _)
      | _ => exact other
  | _ => exact other

/-- If all statements with few tokens left are read well, so are those with one token more. -/
theorem statementStep_reads (ends : input.Ends) (plain : input.environment.hostDirectives = [])
    (inner : ReadsStatement input bound nested) :
    ReadsStatement input (bound + 1) (statementStep nested) := by
  intro state few
  unfold statementStep
  rw [faultless_next]
  refine andThen (statementFrom_faultless ends plain inner few) fun node state₁ ⟨moved, good⟩ => ?_
  refine skip_faultless fun _ state₂ moved₁ => ?_
  exact ⟨moved.trans moved₁, moved₁.admits good⟩

/-- With enough fuel for the tokens that are left there is no fault, by induction on the fuel. -/
theorem statementAt_reads (ends : input.Ends) (plain : input.environment.hostDirectives = [])
    (fuel : Nat) : ReadsStatement input fuel (statementAt fuel) := by
  induction fuel with
  | zero => exact fun _ few => absurd few (by omega)
  | succ fuel ih => exact statementStep_reads ends plain ih

/-- Reading a statement succeeds with one or fails without a fault. -/
theorem statement_reads (ends : input.Ends) (plain : input.environment.hostDirectives = [])
    (bound : Nat) : ReadsStatement input bound statement := by
  intro state _
  unfold statement
  rw [faultless_remaining]
  exact statementAt_reads ends plain _ state (by omega)

/-- A statement of a script takes a token. -/
theorem scriptItem_faultless (ends : input.Ends) (plain : input.environment.hostDirectives = [])
    (state : State) :
    Faultless (scriptItem input) state fun found state' =>
      Progress input 0 state state' ∧
        ∀ node ∈ found, input.left state' < input.left state ∧ state'.Admits node := by
  unfold scriptItem
  rw [faultless_current]
  have read (more : (input.token state).kind ≠ .eof) :=
    item_faultless ends (statement_reads ends plain _) (Nat.lt_succ_self _) more
  cases kind : (input.token state).kind with
  | eof => exact ⟨.refl state, nofun⟩
  | _ => exact read (by rw [kind]; nofun)

/-- Reading a script succeeds with a statement that has no break or continue of its own, or fails
without a fault.  It does not matter what was allowed before. -/
theorem script_faultless (ends : input.Ends) (plain : input.environment.hostDirectives = [])
    (state : State) :
    Faultless (script input) state fun root state' =>
      IsStatement state'.functions.size .nowhere root ∧
        (state.functions.Unplaced → state'.functions.Unplaced) := by
  unfold script
  rw [faultless_modify, faultless_current]
  refine andThen (statements_reads (fun state _ => scriptItem_faultless ends plain state) _
    (Nat.lt_succ_self _)) fun nodes state' ⟨moved, good⟩ => ?_
  have outside : state'.allowed = .nowhere := moved.allowed
  exact ⟨outside ▸ good, moved.unplaced⟩

end statements

end Parse

end HostScript
