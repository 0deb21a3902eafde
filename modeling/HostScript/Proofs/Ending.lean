import HostScript.Proofs.Scripts

/-!
# HostScript.Proofs.Ending

Reading a script whose last token, the end of the script, is missing.  A reader that runs out of
tokens meets the end of the script all the same, but it does not move past it, and so it steps back
to another token: the reader of statements steps back to read an expression, and at the end of the
script it finds the last token once more in place of the end.

`Truncation` is a pair of such readers.  Every reader but the one for statements keeps them level,
and the two fail in different ways only where a statement is to be read at the end of the script.
`Parse.probe` finds out whether that happens: side by side with either reader of a script, it gives
up where they part.
-/

namespace HostScript

/-! ## two readers -/

/-- Two readers of the same tokens, of which the second may not have the last ones of the first.
They may differ in the errors `failure` and `failure'`, and if they have different fuel, in where it
is used up. -/
structure Truncation where
  first : Parse.Input
  second : Parse.Input
  failure : CompileError
  failure' : CompileError
  loose : Prop
  environment : second.environment = first.environment
  plain : first.environment.hostDirectives = []
  size : second.tokens.size ≤ first.tokens.size
  tight : ¬ loose → second.tokens.size = first.tokens.size
  tokens : ∀ k : Nat, second.tokens[k]?.getD second.eof = first.tokens[k]?.getD first.eof

namespace Truncation

variable {c : Truncation} {s t : Parse.State}

/-- Both readers are at the same token, where the second one cannot be further than behind its last
one. -/
structure Level (c : Truncation) (s t : Parse.State) : Prop where
  inside : s.cursor ≤ c.first.tokens.size
  same : t = { s with cursor := min s.cursor c.second.tokens.size }

/-- At the start both readers are at the same token. -/
theorem Level.start (start : s.cursor = 0) : c.Level s s :=
  ⟨by omega, by rw [Nat.min_eq_left (by omega)]⟩

/-- Amounts of fuel that the two readers may have. -/
def Fuel (c : Truncation) (fuel fuel' : Nat) : Prop := c.loose ∨ fuel' = fuel

/-- Fuel that is alike stays alike when both readers use one of it. -/
theorem Fuel.succ_iff {fuel fuel' : Nat} : c.Fuel (fuel + 1) (fuel' + 1) ↔ c.Fuel fuel fuel' := by
  simp [Fuel]

/-- Both readers see the same tokens from where they are. -/
theorem Level.peek (h : c.Level s t) (offset : Nat) :
    c.second.tokens[t.cursor + offset]?.getD c.second.eof =
      c.first.tokens[s.cursor + offset]?.getD c.first.eof := by
  rw [← c.tokens, h.same]
  by_cases inside : s.cursor ≤ c.second.tokens.size
  · rw [Nat.min_eq_left inside]
  · have outside (k : Nat) (far : c.second.tokens.size ≤ k) : c.second.tokens[k]? = none :=
      Array.getElem?_eq_none far
    rw [outside _ (show _ ≤ s.cursor + offset by omega),
      outside _ (show _ ≤ min s.cursor _ + offset by omega)]

/-- The fuel that both readers set out with is alike. -/
theorem Level.fuel (h : c.Level s t) :
    c.Fuel (c.first.tokens.size - s.cursor) (c.second.tokens.size - t.cursor) := by
  by_cases loose : c.loose
  · exact .inl loose
  · have inside := h.inside
    rw [h.same, c.tight loose, Nat.min_eq_left inside]
    exact .inr rfl

/-- Both readers move on together. -/
theorem Level.advanced (h : c.Level s t) : c.Level (c.first.advanced s) (c.second.advanced t) := by
  obtain ⟨inside, rfl⟩ := h
  have size := c.size
  unfold Parse.Input.advanced
  dsimp only
  by_cases front : s.cursor < c.second.tokens.size
  · rw [if_pos (show s.cursor < c.first.tokens.size by omega),
      if_pos (show min s.cursor c.second.tokens.size < _ by omega)]
    exact ⟨show s.cursor + 1 ≤ _ by omega, by simp; omega⟩
  · rw [if_neg (show ¬ min s.cursor c.second.tokens.size < _ by omega)]
    split
    · exact ⟨show s.cursor + 1 ≤ _ by omega, by simp; omega⟩
    · exact ⟨inside, rfl⟩

/-- How two runs may end. -/
inductive Outcomes {α : Type} (c : Truncation) : EStateM.Result CompileError Parse.State α →
    EStateM.Result CompileError Parse.State α → Prop
  | ok {a : α} {s t : Parse.State} (level : c.Level s t) : Outcomes c (.ok a s) (.ok a t)
  | error {e : CompileError} {s t : Parse.State} : Outcomes c (.error e s) (.error e t)
  | apart {s t : Parse.State} : Outcomes c (.error c.failure s) (.error c.failure' t)
  | first {e : CompileError} {s : Parse.State} {r : EStateM.Result CompileError Parse.State α}
    (loose : c.loose) (out : e.cause = .noProgress) : Outcomes c (.error e s) r
  | second {e : CompileError} {t : Parse.State} {r : EStateM.Result CompileError Parse.State α}
    (loose : c.loose) (out : e.cause = .noProgress) : Outcomes c r (.error e t)

/-- The readers stay level or fail. -/
def Reads {α : Type} (c : Truncation) (x y : Parse α) : Prop :=
  ∀ s t, c.Level s t → c.Outcomes (x c.first s) (y c.second t)

variable {α β : Type} {x y : Parse α} {f g : α → Parse β}

/-- What is read behind a step. -/
theorem Outcomes.bind (h : c.Outcomes (x c.first s) (y c.second t))
    (rest : ∀ a, c.Reads (f a) (g a)) :
    c.Outcomes ((x >>= f) c.first s) ((y >>= g) c.second t) := by
  show c.Outcomes ((x c.first >>= fun a => f a c.first) s)
    ((y c.second >>= fun a => g a c.second) t)
  generalize run : x c.first s = result at h
  generalize run' : y c.second t = result' at h
  cases h with
  | @ok a s' t' level =>
      rw [bind_of_ok run, bind_of_ok run']
      exact rest a s' t' level
  | error =>
      rw [bind_of_error run, bind_of_error run']
      exact .error
  | apart =>
      rw [bind_of_error run, bind_of_error run']
      exact .apart
  | first loose out =>
      rw [bind_of_error run]
      exact .first loose out
  | second loose out =>
      rw [bind_of_error run']
      exact .second loose out

namespace Reads

/-- A sequence reads alike if its parts do, whatever the first one returns. -/
theorem bind (h : c.Reads x y) (rest : ∀ a, c.Reads (f a) (g a)) :
    c.Reads (x >>= f) (y >>= g) :=
  fun s t level => (h s t level).bind rest

/-- Returning a value reads no token. -/
theorem pure (a : α) : c.Reads (Pure.pure a : Parse α) (Pure.pure a) := fun _ _ level => .ok level

theorem fail (l : Location) (cause : Cause) :
    c.Reads (Parse.fail l cause : Parse α) (Parse.fail l cause) := fun _ _ _ => .error

end Reads

end Truncation

namespace Parse

variable {c : Truncation} {α β : Type}

/-! ## tokens -/

/-- A token further on is the same for both. -/
theorem peek_cut (offset : Nat) : c.Reads (peek offset) (peek offset) := by
  intro s t level
  unfold peek
  rw [level.peek]
  exact .ok level

theorem current_cut : c.Reads current current := peek_cut 0

/-- Both readers move on. -/
theorem advance_cut : c.Reads advance advance := fun _ _ level => .ok level.advanced

theorem record_cut (entry : LogRecord) : c.Reads (record entry) (record entry) := by
  intro s t level
  exact .ok ⟨level.inside, by rw [level.same]⟩

/-- Both readers have the same host, so what depends on it goes on alike. -/
theorem environment_cut {f g : Environment → Parse α}
    (rest : c.Reads (f c.first.environment) (g c.first.environment)) :
    c.Reads (environment >>= f) (environment >>= g) := by
  intro s t level
  show c.Outcomes (f c.first.environment c.first s) (g c.second.environment c.second t)
  rw [c.environment]
  exact rest s t level

/-- The flags are part of the state, which is the same. -/
theorem allowed_cut : c.Reads allowed allowed := by
  intro s t level
  unfold allowed
  rw [level.same]
  exact .ok ⟨level.inside, rfl⟩

/-- Readers in brackets start where the same is allowed, and the same is put back behind them. -/
theorem bracket_cut {x y : Parse α} (enter : Allowed → Allowed)
    (restore : Allowed → Allowed → Allowed) (h : c.Reads x y) :
    c.Reads (bracket enter restore x) (bracket enter restore y) := by
  intro s t level
  have inside := h { s with allowed := enter s.allowed } { t with allowed := enter t.allowed }
    ⟨level.inside, by rw [level.same]⟩
  unfold bracket
  generalize x c.first _ = result, y c.second _ = result' at inside ⊢
  cases inside with
  | ok after => exact .ok ⟨after.inside, by rw [after.same, level.same]⟩
  | error => exact .error
  | apart => exact .apart
  | first loose out => exact .first loose out
  | second loose out => exact .second loose out

/-- What is allowed in a part is set and put back by both. -/
theorem within_cut {x y : Parse α} (inner : Allowed) (h : c.Reads x y) :
    c.Reads (within inner x) (within inner y) :=
  bracket_cut _ _ h

/-- The next token is the same for both. -/
theorem next_cut : c.Reads next next :=
  current_cut.bind fun token => advance_cut.bind fun _ => .pure token

/-- A token that may be missing is missing for both or for none. -/
theorem accept_cut (kind : TokenKind) : c.Reads (accept kind) (accept kind) := by
  refine current_cut.bind fun token => ?_
  by_cases same : token.kind = kind
  · simp only [same, if_true]
    exact advance_cut.bind fun _ => .pure true
  · simp only [same, if_false]
    exact .pure false

/-- A token that has to be there is there for both or for none. -/
theorem expect_cut (kind : TokenKind) : c.Reads (expect kind) (expect kind) := by
  refine next_cut.bind fun token => ?_
  by_cases same : token.kind = kind
  · simp only [same, if_true]
    exact .pure token
  · simp only [same, if_false]
    exact .fail _ _

/-- Fuel for the tokens that are left. -/
theorem remaining_cut {f g : Nat → Parse β}
    (rest : ∀ left left', c.Fuel (left + 1) (left' + 1) → c.Reads (f left) (g left')) :
    c.Reads (remaining >>= f) (remaining >>= g) :=
  fun s t level => rest _ _ (Truncation.Fuel.succ_iff.2 level.fuel) s t level

/-- Readers with fuel stay level if every round does.  Where only one of them uses up its fuel,
nothing is said of the other. -/
theorem fuel_cut {γ : Type} {x y : Nat → γ → Parse α} (zero : ∀ a, x 0 a = noProgress)
    (zero' : ∀ a, y 0 a = noProgress)
    (round : ∀ k k', (∀ a, c.Reads (x k a) (y k' a)) →
      ∀ a, c.Reads (x (k + 1) a) (y (k' + 1) a))
    (fuel : Nat) : ∀ fuel' a, c.Fuel fuel fuel' → c.Reads (x fuel a) (y fuel' a) := by
  induction fuel with
  | zero =>
      rintro (_ | k') a alike
      · rw [zero, zero']
        exact current_cut.bind fun token => .fail _ _
      · obtain loose | same := alike
        · rw [zero]
          exact fun _ _ _ => .first loose rfl
        · cases same
  | succ k ih =>
      rintro (_ | k') a alike
      · obtain loose | same := alike
        · rw [zero']
          exact fun _ _ _ => .second loose rfl
        · cases same
      · exact round k k' (ih k' · (Truncation.Fuel.succ_iff.1 alike)) a

/-- Items are read alike as long as there is fuel, which is alike. -/
theorem collect_cut {item item' : Parse (Option α)} (h : c.Reads item item') {fuel fuel' : Nat}
    (alike : c.Fuel fuel fuel') : c.Reads (collect item fuel) (collect item' fuel') := by
  refine fuel_cut (x := fun fuel (_ : Unit) => collect item fuel)
    (y := fun fuel _ => collect item' fuel) (fun _ => rfl) (fun _ => rfl) (fun k k' ih _ => ?_)
    fuel fuel' ⟨⟩ alike
  refine h.bind fun found => ?_
  cases found with
  | none => exact .pure []
  | some a => exact (ih ⟨⟩).bind fun rest => .pure (a :: rest)

theorem many_cut {item item' : Parse (Option α)} (h : c.Reads item item') :
    c.Reads (many item) (many item') :=
  remaining_cut fun _ _ alike => collect_cut h alike

/-! ## expressions -/

/-- An increment behind a target is seen by both. -/
theorem adjusted_cut (node : Node) : c.Reads (adjusted node) (adjusted node) := by
  refine current_cut.bind fun token => ?_
  cases token.kind with
  | adjust direction => exact advance_cut.bind fun _ => .pure _
  | _ => exact .pure node

section expressions

variable {nested nested' : Bool → Parse Node} (inner : ∀ b, c.Reads (nested b) (nested' b))

include inner

/-- Arguments from any of them on, with fuel that is alike. -/
theorem argumentsFrom_cut (opening : Location) {fuel fuel' : Nat} (alike : c.Fuel fuel fuel') :
    c.Reads (argumentsFrom nested opening fuel) (argumentsFrom nested' opening fuel') := by
  refine fuel_cut (x := fun fuel (_ : Unit) => argumentsFrom nested opening fuel)
    (y := fun fuel _ => argumentsFrom nested' opening fuel) (fun _ => rfl) (fun _ => rfl)
    (fun k k' ih _ => ?_) fuel fuel' ⟨⟩ alike
  refine (inner true).bind fun argument => next_cut.bind fun separator => ?_
  cases separator.kind with
  | comma => exact (ih ⟨⟩).bind fun rest => .pure (argument :: rest)
  | parenClose => exact .pure [argument]
  | _ => exact .fail _ _

/-- The arguments of a call. -/
theorem arguments_cut : c.Reads (arguments nested) (arguments nested') := by
  refine (expect_cut .parenOpen).bind fun opening => (accept_cut .parenClose).bind fun closed => ?_
  cases closed with
  | true => exact .pure []
  | false => exact remaining_cut fun _ _ alike => argumentsFrom_cut inner _ alike

/-- The links of a chain, with fuel that is alike. -/
theorem chainLinks_cut {fuel fuel' : Nat} (alike : c.Fuel fuel fuel') :
    c.Reads (chainLinks nested fuel) (chainLinks nested' fuel') := by
  refine fuel_cut (x := fun fuel (_ : Unit) => chainLinks nested fuel)
    (y := fun fuel _ => chainLinks nested' fuel) (fun _ => rfl) (fun _ => rfl)
    (fun k k' ih _ => ?_) fuel fuel' ⟨⟩ alike
  refine next_cut.bind fun token => ?_
  cases token.kind with
  | identifier name =>
      have rest (link : Node) : c.Reads
          (do if ← accept .period then
                return .chain token.location link (← chainLinks nested k)
              else return link)
          (do if ← accept .period then
                return .chain token.location link (← chainLinks nested' k')
              else return link) := by
        refine (accept_cut .period).bind fun more => ?_
        cases more with
        | true => exact (ih ⟨⟩).bind fun links => .pure _
        | false => exact .pure link
      refine current_cut.bind fun following => ?_
      by_cases call : following.kind = .parenOpen
      · simp only [call, if_true]
        exact (arguments_cut inner).bind fun nodes => rest _
      · simp only [call, if_false]
        exact rest _
  | _ => exact .fail _ _

/-- A value goes on with a chain for both or for none. -/
theorem continueChain_cut (l : Location) (base : Node) :
    c.Reads (continueChain nested l base) (continueChain nested' l base) := by
  refine (accept_cut .period).bind fun more => ?_
  cases more with
  | true =>
      exact remaining_cut fun _ _ alike =>
        (chainLinks_cut inner alike).bind fun links => .pure _
  | false => exact .pure base

/-- A name is taken for the same by both. -/
theorem identifierExpression_cut (l : Location) (name : String) :
    c.Reads (identifierExpression nested l name) (identifierExpression nested' l name) := by
  have rest (base : Node) := continueChain_cut inner l base
  refine environment_cut (current_cut.bind fun token => (peek_cut 1).bind fun second => ?_)
  cases token.kind with
  | parenOpen => exact (arguments_cut inner).bind fun nodes => rest _
  | period =>
      cases c.first.environment.template? name with
      | none => exact rest _
      | some template =>
          cases second.kind with
          | identifier function =>
              exact advance_cut.bind fun _ => advance_cut.bind fun _ =>
                (arguments_cut inner).bind fun nodes => rest _
          | _ => exact rest _
  | _ => exact rest _

/-- What is read behind the name of a constructor. -/
theorem constructorCall_cut (l : Location) (name function : String) (template : Template) :
    c.Reads (do
      let arguments ← arguments nested
      match template.staticFunction? function arguments.length with
      | none => fail l (.noConstructor name function arguments.length)
      | some _ => continueChain nested l (.staticCall l name function arguments)) (do
      let arguments ← arguments nested'
      match template.staticFunction? function arguments.length with
      | none => fail l (.noConstructor name function arguments.length)
      | some _ => continueChain nested' l (.staticCall l name function arguments)) := by
  refine (arguments_cut inner).bind fun nodes => ?_
  cases template.staticFunction? function nodes.length with
  | none => exact .fail _ _
  | some _ => exact continueChain_cut inner l _

/-- A constructor is the same one for both. -/
theorem newExpression_cut (l : Location) :
    c.Reads (newExpression nested l) (newExpression nested' l) := by
  refine next_cut.bind fun token => ?_
  cases token.kind with
  | identifier name =>
      refine environment_cut ?_
      cases c.first.environment.template? name with
      | none => exact .fail _ _
      | some template =>
          have rest (function : String) := constructorCall_cut inner l name function template
          refine (accept_cut .period).bind fun named => ?_
          cases named with
          | true =>
              refine next_cut.bind fun token => ?_
              cases token.kind with
              | identifier function => exact rest function
              | _ => exact fun _ _ _ => .error
          | false => exact rest Template.constructor
  | _ => exact .fail _ _

/-- An operand by its first token, which is the same. -/
theorem operand_cut : c.Reads (operand nested) (operand nested') := by
  refine next_cut.bind fun token => ?_
  cases token.kind with
  | number value | string value => exact .pure _
  | identifier name => exact identifierExpression_cut inner _ name
  | parenOpen => exact (inner true).bind fun _ => (expect_cut .parenClose).bind fun _ => .pure _
  | operator op =>
      cases op with
      | sub => exact (inner false).bind fun _ => .pure _
      | _ => exact .fail _ _
  | unary op => exact (inner false).bind fun _ => .pure _
  | adjust direction => exact (inner false).bind fun _ => .pure _
  | keyword word =>
      cases word with
      | nullKw => exact .pure _
      | newKw => exact newExpression_cut inner _
      | _ => exact .fail _ _
  | _ => exact .fail _ _

theorem operatorAndOperand_cut :
    c.Reads (operatorAndOperand nested) (operatorAndOperand nested') := by
  refine current_cut.bind fun token => ?_
  cases token.kind with
  | operator op => exact advance_cut.bind fun _ => (inner false).bind fun _ => .pure _
  | _ => exact .pure none

/-- Both readers find the same operators and operands and climb in the same way. -/
theorem operators_cut (node : Node) : c.Reads (operators nested node) (operators nested' node) := by
  refine (many_cut (operatorAndOperand_cut inner)).bind fun rest => ?_
  cases Precedence.fold? Precedence.join (node, rest) with
  | none => exact current_cut.bind fun token => .fail _ _
  | some tree => exact .pure tree

/-- An expression reads alike if nested ones do. -/
theorem expressionStep_cut (withOperators : Bool) :
    c.Reads (expressionStep nested withOperators) (expressionStep nested' withOperators) := by
  refine (operand_cut inner).bind fun node => (adjusted_cut node).bind fun node => ?_
  cases withOperators with
  | true => exact operators_cut inner node
  | false => exact .pure node

end expressions

/-- Expressions read alike, by induction on the fuel. -/
theorem expressionAt_cut {fuel fuel' : Nat} (withOperators : Bool) (alike : c.Fuel fuel fuel') :
    c.Reads (expressionAt fuel withOperators) (expressionAt fuel' withOperators) :=
  fuel_cut (fun _ => rfl) (fun _ => rfl) (fun _ _ inner => expressionStep_cut inner) fuel fuel'
    withOperators alike

/-- Expressions read alike with the fuel that both readers take themselves. -/
theorem expression_cut (withOperators : Bool) :
    c.Reads (expression withOperators) (expression withOperators) :=
  remaining_cut fun _ _ alike => expressionAt_cut withOperators alike

/-! ## names -/

theorem labelName_cut : c.Reads labelName labelName := by
  refine next_cut.bind fun token => ?_
  cases token.kind with
  | identifier name | string name => exact .pure name
  | _ => exact .fail _ _

/-- Parameters are the same, and so is one that comes twice. -/
theorem parametersFrom_cut (function : String) {fuel fuel' : Nat} (parameters : List String)
    (alike : c.Fuel fuel fuel') :
    c.Reads (parametersFrom function fuel parameters)
      (parametersFrom function fuel' parameters) := by
  refine fuel_cut (fun _ => rfl) (fun _ => rfl) (fun k k' ih parameters => ?_) fuel fuel' parameters
    alike
  refine next_cut.bind fun token => ?_
  cases token.kind with
  | identifier parameter =>
      by_cases twice : parameter ∈ parameters
      · simp only [twice, if_true]
        exact fun _ _ _ => .error
      · simp only [twice, if_false]
        refine next_cut.bind fun separator => ?_
        cases separator.kind with
        | comma => exact ih _
        | parenClose => exact .pure _
        | _ => exact .fail _ _
  | _ => exact .fail _ _

theorem parameters_cut (function : String) :
    c.Reads (parameters function) (parameters function) := by
  refine (expect_cut .parenOpen).bind fun _ => (accept_cut .parenClose).bind fun closed => ?_
  cases closed with
  | true => exact .pure []
  | false => exact remaining_cut fun _ _ alike => parametersFrom_cut function [] alike

/-- Registering a function with the state at hand. -/
theorem register_eq (name : String) (parameters : List String) (l : Location) (i : Input)
    (s : State) :
    register name parameters l i s =
      (match rival? i.environment s.functions name parameters.length with
        | some rival => fail l (.nameTaken (Signature.mk name parameters.length).text rival)
        | none => do
          modify fun state => { state with functions := s.functions.register name parameters }
          record (.registered name parameters.length)
          return s.functions.size : Parse Nat) i s := rfl

/-- Both readers have found the same functions, so a name is taken for both or for none. -/
theorem register_cut (name : String) (parameters : List String) (l : Location) :
    c.Reads (register name parameters l) (register name parameters l) := by
  rintro s _ ⟨inside, rfl⟩
  rw [register_eq, register_eq, c.environment]
  cases rival? c.first.environment s.functions name parameters.length with
  | some rival => exact .error
  | none => exact .ok ⟨inside, rfl⟩

/-! ## blocks and switches -/

section bodies

variable {nested nested' : Parse Node} (inner : c.Reads nested nested')

include inner

/-- A block ends for both or goes on for both. -/
theorem blockItem_cut (opening : Location) :
    c.Reads (blockItem nested opening) (blockItem nested' opening) := by
  refine current_cut.bind fun token => ?_
  cases token.kind with
  | braceClose => exact advance_cut.bind fun _ => .pure none
  | eof => exact .fail _ _
  | _ => exact inner.bind fun node => .pure (some node)

theorem block_cut (opening : Location) : c.Reads (block nested opening) (block nested' opening) :=
  (many_cut (blockItem_cut inner opening)).bind fun _ => .pure _

/-- A case ends for both or goes on for both. -/
theorem caseItem_cut (switch : Location) :
    c.Reads (caseItem nested switch) (caseItem nested' switch) := by
  refine current_cut.bind fun token => ?_
  have more : c.Reads (return some (← nested)) (return some (← nested')) :=
    inner.bind fun node => .pure (some node)
  cases token.kind with
  | braceClose => exact .pure none
  | keyword word =>
      cases word with
      | caseKw | defaultKw => exact .pure none
      | _ => exact more
  | eof => exact .fail _ _
  | _ => exact more

theorem caseBody_cut (switch l : Location) :
    c.Reads (caseBody nested switch l) (caseBody nested' switch l) :=
  (many_cut (caseItem_cut inner switch)).bind fun _ => .pure _

/-- Cases are read alike, and a second default is one for both. -/
theorem casesFrom_cut (switch : Location) {fuel fuel' : Nat} (fallback : Option Node)
    (alike : c.Fuel fuel fuel') :
    c.Reads (casesFrom nested switch fuel fallback) (casesFrom nested' switch fuel' fallback) := by
  refine fuel_cut (fun _ => rfl) (fun _ => rfl) (fun k k' ih fallback => ?_) fuel fuel' fallback
    alike
  refine next_cut.bind fun token => ?_
  cases token.kind with
  | keyword word =>
      cases word with
      | caseKw =>
          exact (expression_cut true).bind fun value => (expect_cut .colon).bind fun _ =>
            (caseBody_cut inner switch _).bind fun body => (ih fallback).bind fun cases => .pure _
      | defaultKw =>
          cases fallback with
          | some body => exact fun _ _ _ => .error
          | none =>
              exact (expect_cut .colon).bind fun _ => (caseBody_cut inner switch _).bind fun body =>
                ih (some body)
      | _ => exact .fail _ _
  | braceClose => exact .pure _
  | _ => exact .fail _ _

/-- A label is followed by the same for both.  The end of the script counts as the end of a
block. -/
theorem label_cut (l : Location) : c.Reads (label nested l) (label nested' l) := by
  refine labelName_cut.bind fun name => (accept_cut .colon).bind fun _ =>
    current_cut.bind fun token => ?_
  cases token.kind with
  | braceClose | eof => exact .pure _
  | _ => exact inner.bind fun node => .pure _

end bodies

/-- Without rules of the host nothing is read behind the name of a directive. -/
theorem directiveRule_cut (nested nested' : Parse Node) (l : Location) (token : Token)
    (name : String) :
    c.Reads (do
      match (← environment).directive? name with
      | none => fail token.location (.invalidDirective name)
      | some rule =>
        let (code, statements) ← directiveBody nested token rule
        record (.directive name l)
        return Node.directive l name code statements) (do
      match (← environment).directive? name with
      | none => fail token.location (.invalidDirective name)
      | some rule =>
        let (code, statements) ← directiveBody nested' token rule
        record (.directive name l)
        return Node.directive l name code statements) := by
  refine environment_cut ?_
  rw [Environment.directive?_of_plain c.plain]
  by_cases marked : name ∈ c.first.environment.directives
  · rw [if_pos marked]
    exact (record_cut _).bind fun _ => .pure _
  · rw [if_neg marked]
    exact .fail _ _

/-- The nested statements do not matter, since no rule of the host asks for one. -/
theorem directive_cut (nested nested' : Parse Node) (l : Location) :
    c.Reads (directive nested l) (directive nested' l) := by
  refine next_cut.bind fun token => ?_
  have named := directiveRule_cut (c := c) nested nested' l token token.kind.text
  obtain ⟨kind, l₁⟩ := token
  cases kind with
  | identifier name | keyword word => exact named
  | _ => exact .fail _ _

/-! ## statements -/

/-- An expression as a statement of its own. -/
theorem effect_cut (l : Location) (node : Node) :
    c.Reads (match node with
      | .adjust location _ target direction =>
        return .adjust location .statement target direction
      | .call .. | .staticCall .. | .chain .. => return Node.discard l node
      | other => fail other.location (.notAStatement other.kindName)) (match node with
      | .adjust location _ target direction =>
        return .adjust location .statement target direction
      | .call .. | .staticCall .. | .chain .. => return Node.discard l node
      | other => fail other.location (.notAStatement other.kindName)) := by
  cases node with
  | adjust | call | staticCall | chain => exact .pure _
  | _ => exact .fail _ _

/-- A statement that starts like an expression. -/
theorem expressionStatement_cut (l : Location) :
    c.Reads (expressionStatement l) (expressionStatement l) := by
  refine (expression_cut false).bind fun node => current_cut.bind fun token => ?_
  cases token.kind with
  | set op => exact advance_cut.bind fun _ => (expression_cut true).bind fun _ => .pure _
  | _ => exact effect_cut l node

theorem returnValue_cut : c.Reads returnValue returnValue := by
  refine current_cut.bind fun token => ?_
  cases token.kind with
  | semicolon | braceClose | eof => exact .pure none
  | _ => exact (expression_cut true).bind fun value => .pure (some value)

/-- Reading a statement with its first token at hand. -/
theorem statementStep_eq (nested : Parse Node) (i : Input) (s : State) :
    statementStep nested i s =
      (do
        let node ← statementFrom nested (i.token s)
        let _ ← accept .semicolon
        return node : Parse Node) i (i.advanced s) := rfl

section statements

variable {nested nested' : Parse Node} (inner : c.Reads nested nested')

include inner

/-- A switch reads alike if nested statements do. -/
theorem switch_cut (l : Location) (kind : SwitchKind) :
    c.Reads (switch nested l kind) (switch nested' l kind) :=
  (expression_cut true).bind fun _ => (expect_cut .braceOpen).bind fun _ =>
    remaining_cut fun _ _ alike =>
      (bracket_cut _ _ (casesFrom_cut inner l none alike)).bind fun _ => .pure _

/-- A for loop reads alike if nested statements do. -/
theorem forLoop_cut (l : Location) : c.Reads (forLoop nested l) (forLoop nested' l) := by
  have body := within_cut .loopBody inner
  refine (accept_cut .parenOpen).bind fun parenthesized => inner.bind fun init =>
    (expression_cut true).bind fun condition => (accept_cut .semicolon).bind fun _ =>
    (within_cut .loopPost inner).bind fun post => ?_
  cases parenthesized with
  | true => exact (expect_cut .parenClose).bind fun _ => body.bind fun _ => .pure _
  | false => exact body.bind fun _ => .pure _

/-- A function reads alike if nested statements do. -/
theorem function_cut (l : Location) : c.Reads (function nested l) (function nested' l) := by
  refine next_cut.bind fun token => ?_
  cases token.kind with
  | identifier name =>
      refine (parameters_cut name).bind fun parameters => current_cut.bind fun opening => ?_
      by_cases starts : opening.kind = .braceOpen
      · simp only [starts, ne_eq, not_true_eq_false, if_false]
        exact (within_cut .nowhere inner).bind fun _ =>
          (register_cut name parameters _).bind fun _ => .pure _
      · simp only [starts, ne_eq, not_false_eq_true, if_true]
        exact fun _ _ _ => .error
  | _ => exact .fail _ _

/-- The rest of a statement stays level, unless the statement is the end of the script. -/
theorem statementFrom_cut (token : Token) {s t : State} (level : c.Level s t)
    (inside : s.cursor ≤ c.second.tokens.size) :
    c.Outcomes (statementFrom nested token c.first s)
      (statementFrom nested' token c.second t) := by
  obtain ⟨kind, l⟩ := token
  have effect : c.Outcomes ((do retreat; expressionStatement l : Parse Node) c.first s)
      ((do retreat; expressionStatement l : Parse Node) c.second t) := by
    refine expressionStatement_cut l { s with cursor := s.cursor - 1 }
      { t with cursor := t.cursor - 1 } ⟨?_, ?_⟩
    · exact Nat.le_trans (Nat.sub_le _ _) level.inside
    · rw [level.same, Nat.min_eq_left inside]
      simp only
      rw [Nat.min_eq_left (Nat.le_trans (Nat.sub_le _ _) inside)]
  cases kind with
  | braceOpen => exact block_cut inner l s t level
  | pound => exact directive_cut _ _ l s t level
  | keyword word =>
      cases word with
      | returnKw => exact (returnValue_cut.bind fun _ => .pure _) s t level
      | ifKw =>
          refine ((expression_cut true).bind fun condition => inner.bind fun accepted =>
            (accept_cut _).bind fun more => ?_) s t level
          cases more with
          | true => exact inner.bind fun _ => .pure _
          | false => exact .pure _
      | switchKw | selectKw => exact switch_cut inner l _ s t level
      | whileKw =>
          exact ((expression_cut true).bind fun _ => (within_cut .loopBody inner).bind fun _ =>
            .pure _) s t level
      | doKw =>
          exact ((within_cut .loopBody inner).bind fun _ => (expect_cut _).bind fun _ =>
            (expression_cut true).bind fun _ => .pure _) s t level
      | forKw => exact forLoop_cut inner l s t level
      | breakKw =>
          refine (allowed_cut.bind fun allowed => ?_) s t level
          cases allowed.leave with
          | true => exact .pure _
          | false => exact .fail _ _
      | continueKw =>
          refine (allowed_cut.bind fun allowed => ?_) s t level
          cases allowed.proceed with
          | true => exact .pure _
          | false => exact .fail _ _
      | labelKw => exact label_cut inner l s t level
      | jumpKw | callKw => exact (labelName_cut.bind fun _ => .pure _) s t level
      | backKw => exact .ok level
      | functionKw => exact function_cut inner l s t level
      | _ => exact effect
  | _ => exact effect

/-- A statement stays level, unless it is the end of the script. -/
theorem statementStep_cut {s t : State} (level : c.Level s t)
    (inside : s.cursor < c.second.tokens.size) :
    c.Outcomes (statementStep nested c.first s) (statementStep nested' c.second t) := by
  have token : c.second.token t = c.first.token s := level.peek 0
  have after : (c.first.advanced s).cursor ≤ c.second.tokens.size := by
    have size := c.size
    rw [Input.advanced, if_pos (Nat.lt_of_lt_of_le inside size)]
    exact inside
  rw [statementStep_eq, statementStep_eq, token]
  exact (statementFrom_cut inner (c.first.token s) level.advanced after).bind
    fun node => (accept_cut .semicolon).bind fun _ => .pure node

end statements

/-! ## the last token -/

/-- How an expression statement fails that starts with the last token of a script. -/
def stray (last eof : Token) : CompileError :=
  match last.kind with
  | .keyword .nullKw => ⟨last.location, .notAStatement (Node.null last.location).kindName⟩
  | .number value => ⟨last.location, .notAStatement (Node.number last.location value).kindName⟩
  | .string value => ⟨last.location, .notAStatement (Node.string last.location value).kindName⟩
  | .identifier name =>
    ⟨last.location, .notAStatement (Node.identifier last.location name).kindName⟩
  | .parenOpen | .operator .sub | .unary _ | .adjust _ =>
    ⟨eof.location, .unexpected .expression .eof⟩
  | .operator op => ⟨last.location, .notUnary op⟩
  | .keyword .newKw => ⟨eof.location, .unexpected .templateName .eof⟩
  | kind => ⟨last.location, .unexpected .expression kind⟩

/-- A literal or a name. -/
def IsValue : Node → Prop
  | .null _ | .number .. | .string .. | .identifier .. => True
  | _ => False

/-- The reader fails with this error. -/
def Fails (e : CompileError) (x : Parse α) (i : Input) (s : State) : Prop :=
  ∃ s', x i s = .error e s'

/-- What a reader gives: what it has read and the functions that are registered with it, or how it
fails. -/
def given (x : Parse α) (i : Input) (s : State) : Except CompileError (α × FunctionTable) :=
  match x i s with
  | .ok a s' => .ok (a, s'.functions)
  | .error e _ => .error e

section last

variable {i : Input} {s s' : State} {e : CompileError} {nested : Bool → Parse Node}

/-- Failing is what is left of a run without its state. -/
theorem fails_iff {x : Parse α} : Fails e x i s ↔ given x i s = .error e := by
  unfold Fails given
  cases x i s with
  | ok a s' => simp
  | error e' s' => simp

/-- If the first part of a sequence fails, so does the sequence. -/
theorem Fails.bind {x : Parse α} (h : Fails e x i s) (f : α → Parse β) : Fails e (x >>= f) i s := by
  obtain ⟨s', run⟩ := h
  exact ⟨s', bind_of_error run⟩

/-- If the first part of a sequence succeeds, it fails as the rest does. -/
theorem fails_bind_of_ok {x : Parse α} {f : α → Parse β} {a : α} (run : x i s = .ok a s')
    (h : Fails e (f a) i s') : Fails e (x >>= f) i s := by
  obtain ⟨s'', run'⟩ := h
  exact ⟨s'', (bind_of_ok run).trans run'⟩

/-- What stands before the rest of a reader can be carried out. -/
theorem next_bind (f : Token → Parse α) :
    (next >>= f) i s = f (i.token s) i (i.advanced s) := rfl

theorem current_bind (f : Token → Parse α) : (current >>= f) i s = f (i.token s) i s := rfl

theorem peek_bind (offset : Nat) (f : Token → Parse α) :
    (peek offset >>= f) i s = f (i.tokens[s.cursor + offset]?.getD i.eof) i s := rfl

theorem retreat_bind (f : Unit → Parse α) :
    (retreat >>= f) i s = f ⟨⟩ i { s with cursor := s.cursor - 1 } := rfl

theorem environment_bind (f : Environment → Parse α) :
    (environment >>= f) i s = f i.environment i s := rfl

/-- A failure behind the next token. -/
theorem fails_next {f : Token → Parse α} :
    Fails e (next >>= f) i s ↔ Fails e (f (i.token s)) i (i.advanced s) := Iff.rfl

theorem fails_current {f : Token → Parse α} :
    Fails e (current >>= f) i s ↔ Fails e (f (i.token s)) i s := Iff.rfl

/-- There is no expression at the end of a script. -/
theorem expressionAt_end (ends : i.eof.kind = .eof) (at_ : i.token s = i.eof) (fuel : Nat)
    (b : Bool) :
    Fails ⟨i.eof.location, .unexpected .expression .eof⟩ (expressionAt (fuel + 1) b) i s := by
  refine Fails.bind (x := operand (expressionAt fuel)) ?_ _
  unfold operand
  rw [fails_next, at_]
  simp only [ends]
  exact ⟨_, rfl⟩

/-- At the end nothing goes on with a chain. -/
theorem continueChain_end (ends : i.eof.kind = .eof) (at_ : i.token s = i.eof) (l : Location)
    (base : Node) : continueChain nested l base i s = .ok base s := by
  have stays : accept .period i s = .ok false s := by
    show (if (i.token s).kind = .period then _ else _ : Parse Bool) i s = _
    rw [at_, ends]
    rfl
  exact bind_of_ok stays

/-- At the end a name is a variable. -/
theorem identifierExpression_end (ends : i.eof.kind = .eof) (at_ : i.token s = i.eof)
    (l : Location) (name : String) :
    identifierExpression nested l name i s = .ok (.identifier l name) s := by
  unfold identifierExpression
  rw [environment_bind, current_bind, peek_bind, at_]
  simp only [ends]
  exact continueChain_end ends at_ l _

/-- An operand of one token with the end of the script behind it: it is a value, or it fails. -/
theorem operand_last (ends : i.eof.kind = .eof) (behind : i.token (i.advanced s) = i.eof)
    (nothing : (i.token s).kind ≠ .eof → ∀ b,
      Fails ⟨i.eof.location, .unexpected .expression .eof⟩ (nested b) i (i.advanced s)) :
    (∃ node, operand nested i s = .ok node (i.advanced s) ∧
      stray (i.token s) i.eof = ⟨node.location, .notAStatement node.kindName⟩ ∧ IsValue node) ∨
    Fails (stray (i.token s) i.eof) (operand nested) i s := by
  unfold operand Fails stray
  rw [next_bind]
  cases kind : (i.token s).kind with
  | number value => exact .inl ⟨_, rfl, rfl, trivial⟩
  | string value => exact .inl ⟨_, rfl, rfl, trivial⟩
  | identifier name => exact .inl ⟨_, identifierExpression_end ends behind _ name, rfl, trivial⟩
  | parenOpen => exact .inr ((nothing (by simp [kind]) true).bind _)
  | operator op =>
      cases op with
      | sub => exact .inr ((nothing (by simp [kind]) false).bind _)
      | _ => exact .inr ⟨_, rfl⟩
  | unary op => exact .inr ((nothing (by simp [kind]) false).bind _)
  | adjust direction => exact .inr ((nothing (by simp [kind]) false).bind _)
  | keyword word =>
      cases word with
      | nullKw => exact .inl ⟨_, rfl, rfl, trivial⟩
      | newKw =>
          refine .inr ?_
          show Fails _ (newExpression nested _) i (i.advanced s)
          unfold newExpression
          rw [fails_next, behind]
          simp only [ends]
          exact ⟨_, rfl⟩
      | _ => exact .inr ⟨_, rfl⟩
  | _ => exact .inr ⟨_, rfl⟩

/-- An expression with its fuel spelled out. -/
theorem expression_eq (b : Bool) :
    expression b i s = expressionStep (expressionAt (i.left s)) b i s := rfl

/-- No statement starts with the last token of a script. -/
theorem expressionStatement_last (ends : i.Ends) (behind : i.token (i.advanced s) = i.eof)
    (l : Location) : Fails (stray (i.token s) i.eof) (expressionStatement l) i s := by
  have nothing (more : (i.token s).kind ≠ .eof) (b : Bool) :
      Fails ⟨i.eof.location, .unexpected .expression .eof⟩ (expressionAt (i.left s) b) i
        (i.advanced s) := by
    obtain ⟨k, left⟩ := Nat.exists_eq_add_of_lt (i.left_pos ends more)
    rw [left, Nat.zero_add]
    exact expressionAt_end ends behind k b
  rcases operand_last ends behind nothing with ⟨node, run, same, value⟩ | failed
  · have read : expression false i s = .ok node (i.advanced s) := by
      have done : adjusted node i (i.advanced s) = .ok node (i.advanced s) := by
        unfold adjusted
        rw [current_bind, behind]
        simp only [show i.eof.kind = .eof from ends]
        rfl
      rw [expression_eq]
      exact (bind_of_ok run).trans (bind_of_ok done)
    rw [same]
    refine fails_bind_of_ok read ?_
    rw [fails_current, behind]
    simp only [show i.eof.kind = .eof from ends]
    cases node with
    | null | number | string | identifier => exact ⟨_, rfl⟩
    | _ => exact value.elim
  · have unread : Fails (stray (i.token s) i.eof) (expression false) i s := by
      unfold Fails
      rw [expression_eq]
      exact failed.bind _
    exact unread.bind _

/-- At the end of a script the reader of statements steps back to the token before where it is, and
fails on that. -/
theorem statementStep_end (ends : i.Ends) (at_ : i.token s = i.eof)
    (back : s' = { i.advanced s with cursor := (i.advanced s).cursor - 1 })
    (behind : i.token (i.advanced s') = i.eof) (nested : Parse Node) :
    Fails (stray (i.token s') i.eof) (statementStep nested) i s := by
  have step : statementFrom nested i.eof =
      (do retreat; expressionStatement i.eof.location) := by
    unfold statementFrom
    simp only [show i.eof.kind = .eof from ends]
  have failed : Fails (stray (i.token s') i.eof) (do retreat; expressionStatement i.eof.location) i
      (i.advanced s) := by
    unfold Fails
    rw [retreat_bind, ← back]
    exact expressionStatement_last ends behind i.eof.location
  unfold Fails
  rw [statementStep_eq, at_, step]
  exact failed.bind _

end last

/-! ## scripts that end too soon -/

/-- What `probe` gives up with.  No reader fails so. -/
def unfinished : CompileError := ⟨default, .missingRoot⟩

/-- Reads a statement, but gives up if nothing but the end of the script is left. -/
def probeAt : Nat → Parse Node
  | 0 => noProgress
  | fuel + 1 => do
    if (← remaining) ≤ 1 then throw unfinished else statementStep (probeAt fuel)

def probeItem : Parse (Option Node) := do
  match (← current).kind with
  | .eof => return none
  | _ => return some (← probeAt ((← remaining) + 1))

/-- Reads a script as `script` does, but gives up where a statement is to be read at the end of the
script. -/
def probe : Parse Node := do
  modify fun state => { state with allowed := .nowhere }
  let location := (← current).location
  let statements ← many probeItem
  record (.parsed statements.length (← get).functions.size)
  return .block location statements

/-- The first reader has the tokens of a script and gives up where a statement is to be read at the
end of it.  The second one fails there. -/
structure Probes (c : Truncation) : Prop where
  size : c.first.tokens.size ≤ c.second.tokens.size + 1
  gives : c.failure = unfinished
  stops : ∀ s t, c.Level s t → c.first.tokens.size ≤ s.cursor + 1 → ∀ nested,
    Fails c.failure' (statementStep nested) c.second t

namespace Probes

/-- Whoever probes reads statements as the second reader does, by induction on the fuel. -/
theorem probeAt_cut (h : Probes c) {fuel fuel' : Nat} (alike : c.Fuel fuel fuel') :
    c.Reads (probeAt fuel) (statementAt fuel') := by
  refine fuel_cut (x := fun fuel (_ : Unit) => probeAt fuel) (y := fun fuel _ => statementAt fuel)
    (fun _ => rfl) (fun _ => rfl) (fun k k' inner _ s t level => ?_) fuel fuel' ⟨⟩ alike
  show c.Outcomes
    ((if c.first.tokens.size - s.cursor ≤ 1 then throw unfinished
      else statementStep (probeAt k) : Parse Node) c.first s)
    (statementStep (statementAt k') c.second t)
  by_cases little : c.first.tokens.size - s.cursor ≤ 1
  · rw [if_pos little]
    obtain ⟨t', failed⟩ := h.stops s t level (by omega) (statementAt k')
    rw [failed, ← h.gives]
    exact .apart
  · rw [if_neg little]
    have size := h.size
    exact statementStep_cut (inner ⟨⟩) level (by omega)

/-- The probe goes on for as long as the second reader does. -/
theorem probeItem_cut (h : Probes c) : c.Reads probeItem scriptItem := by
  refine current_cut.bind fun token => ?_
  have more : c.Reads (return some (← probeAt ((← remaining) + 1)))
      (return some (← statement)) := by
    have statement_cut : c.Reads (do probeAt ((← remaining) + 1)) statement :=
      remaining_cut fun _ _ alike => h.probeAt_cut alike
    exact statement_cut.bind fun node => .pure (some node)
  cases token.kind with
  | eof => exact .pure none
  | _ => exact more

/-- The probe reads a script as the second reader does. -/
theorem probe_cut (h : Probes c) : c.Reads probe script := by
  have outside : c.Reads (modify fun state => { state with allowed := .nowhere } : Parse PUnit)
      (modify fun state => { state with allowed := .nowhere }) :=
    fun _ _ level => .ok ⟨level.inside, by rw [level.same]⟩
  refine outside.bind fun _ => current_cut.bind fun token =>
    (many_cut h.probeItem_cut).bind fun nodes => ?_
  rintro s _ ⟨inside, rfl⟩
  exact .ok ⟨inside, rfl⟩

/-- Where the first reader gives up the second one fails, and otherwise they give the same. -/
theorem script_cut (h : Probes c) {s t : State} (level : c.Level s t)
    (fuelled : c.loose → ∀ e, Fails e probe c.first s → e.cause ≠ .noProgress)
    {post : Node → State → Prop} (faultless : Faultless (script c.second) t post) :
    (Fails unfinished probe c.first s → Fails c.failure' script c.second t) ∧
    (¬ Fails unfinished probe c.first s →
      given script c.second t = given probe c.first s) := by
  have beside := h.probe_cut s t level
  unfold Fails given
  generalize run : probe c.first s = result at beside ⊢
  generalize run' : script c.second t = result' at beside ⊢
  cases beside with
  | ok level =>
      constructor
      · rintro ⟨_, failed⟩
        cases failed
      · rw [level.same]
        exact fun _ => rfl
  | error =>
      constructor
      · rintro ⟨_, failed⟩
        cases failed
        cases faultless.not_fault_of_error run'
      · exact fun _ => rfl
  | apart =>
      rw [h.gives]
      exact ⟨fun _ => ⟨_, rfl⟩, fun finished => absurd ⟨_, rfl⟩ finished⟩
  | first loose out => exact absurd out (fuelled loose _ ⟨_, run⟩)
  | second loose out =>
      have fault := faultless.not_fault_of_error run'
      rw [out] at fault
      cases fault

end Probes

section ending

variable {env : Environment} {front : List Token} {eof : Token}

/-- A script with its end. -/
def Input.whole (env : Environment) (front : List Token) (eof : Token) : Input :=
  ⟨env, (front ++ [eof]).toArray, eof⟩

/-- A script without its end. -/
def Input.endless (env : Environment) (front : List Token) (eof : Token) : Input :=
  ⟨env, front.toArray, eof⟩

theorem Input.ends_whole (ends : eof.kind = .eof) : (whole env front eof).Ends := ends

theorem Input.ends_endless (ends : eof.kind = .eof) : (endless env front eof).Ends := ends

/-- The tokens are the same with and without the end, since behind them there is nothing but the
end. -/
theorem Input.tokens_endless (env : Environment) (front : List Token) (eof : Token) (k : Nat) :
    (endless env front eof).tokens[k]?.getD eof = (whole env front eof).tokens[k]?.getD eof := by
  simp only [whole, endless, List.getElem?_toArray]
  rcases Nat.lt_trichotomy k front.length with inside | rfl | outside
  · rw [List.getElem?_append_left inside]
  · simp
  · rw [List.getElem?_eq_none (Nat.le_of_lt outside), List.getElem?_eq_none (by simp; omega)]

/-- Giving up at the end of a script, side by side with reading it. -/
def wholeTruncation (plain : env.hostDirectives = []) (front : List Token) (eof : Token) :
    Truncation where
  first := .whole env front eof
  second := .whole env front eof
  failure := unfinished
  failure' := ⟨eof.location, .unexpected .expression .eof⟩
  loose := False
  environment := rfl
  plain := plain
  size := Nat.le_refl _
  tight _ := rfl
  tokens _ := rfl

/-- Giving up at the end of a script, side by side with reading it without its end. -/
def endlessTruncation (plain : env.hostDirectives = []) (front : List Token) (eof : Token) :
    Truncation where
  first := .whole env front eof
  second := .endless env front eof
  failure := unfinished
  failure' := stray (front.getLast?.getD eof) eof
  loose := True
  environment := rfl
  plain := plain
  size := by simp [Input.whole, Input.endless]
  tight := fun tight => absurd trivial tight
  tokens := Input.tokens_endless env front eof

/-- Behind the tokens of a script there is nothing but its end. -/
theorem Input.token_whole {s : State} (far : front.length ≤ s.cursor) :
    (whole env front eof).token s = eof := by
  have none : (endless env front eof).tokens[s.cursor + 0]? = none :=
    Array.getElem?_eq_none (by simpa [endless] using far)
  have same := tokens_endless env front eof (s.cursor + 0)
  rw [none] at same
  exact same.symm

/-- Behind the tokens there is the end. -/
theorem Input.token_endless {s : State} (far : front.length ≤ s.cursor) :
    (endless env front eof).token s = eof :=
  (tokens_endless env front eof (s.cursor + 0)).trans (token_whole far)

/-- No reader goes back by moving on. -/
theorem Input.le_cursor_advanced (i : Input) (s : State) : s.cursor ≤ (i.advanced s).cursor := by
  unfold advanced
  split
  · exact Nat.le_succ _
  · exact Nat.le_refl _

/-- With its end, a script is read to the end by the probe. -/
theorem probes_whole (plain : env.hostDirectives = []) (ends : eof.kind = .eof) :
    Probes (wholeTruncation plain front eof) where
  size := Nat.le_succ _
  gives := rfl
  stops s t level far nested := by
    have size : (Input.whole env front eof).tokens.size = front.length + 1 := by simp [Input.whole]
    have at_ : front.length ≤ t.cursor := by
      have far : (Input.whole env front eof).tokens.size ≤ s.cursor + 1 := far
      rw [level.same]
      show front.length ≤ min s.cursor (Input.whole env front eof).tokens.size
      omega
    -- The reader moves past the end, so that it steps back to the end.
    obtain ⟨t', back⟩ : ∃ t' : State, t' = { (Input.whole env front eof).advanced t with
      cursor := ((Input.whole env front eof).advanced t).cursor - 1 } := ⟨_, rfl⟩
    have again : front.length ≤ t'.cursor := by
      rw [back]
      unfold Input.advanced
      split
      · exact at_
      next outside =>
        show front.length ≤ t.cursor - 1
        omega
    have same : stray eof eof = ⟨eof.location, .unexpected .expression .eof⟩ := by
      simp only [stray, ends]
    have fails := statementStep_end (i := .whole env front eof) ends (Input.token_whole at_) back
      (Input.token_whole (Nat.le_trans again (Input.le_cursor_advanced _ _))) nested
    rw [Input.token_whole again, show (Input.whole env front eof).eof = eof from rfl, same] at fails
    exact fails

/-- Without its end, a script is read to its last token by the probe. -/
theorem probes_endless (plain : env.hostDirectives = []) (ends : eof.kind = .eof) :
    Probes (endlessTruncation plain front eof) where
  size := by simp [endlessTruncation, Input.whole, Input.endless]
  gives := rfl
  stops s t level far nested := by
    have at_ : t.cursor = front.length := by
      have far : (Input.whole env front eof).tokens.size ≤ s.cursor + 1 := far
      rw [level.same]
      show min s.cursor (Input.endless env front eof).tokens.size = front.length
      simp only [Input.whole, Input.endless, List.size_toArray, List.length_append,
        List.length_singleton] at far ⊢
      omega
    -- The reader cannot move, so that it steps back to the last token.
    have stays : (Input.endless env front eof).advanced t = t := by
      unfold Input.advanced
      rw [if_neg (by simp [Input.endless, at_])]
    have last : (Input.endless env front eof).token { t with cursor := t.cursor - 1 } =
        front.getLast?.getD eof := by
      simp [Input.token, Input.endless, at_, List.getLast?_eq_getElem?]
    have back : { t with cursor := t.cursor - 1 } = { (Input.endless env front eof).advanced t with
        cursor := ((Input.endless env front eof).advanced t).cursor - 1 } := by rw [stays]
    have behind : front.length ≤
        ((Input.endless env front eof).advanced { t with cursor := t.cursor - 1 }).cursor := by
      have size : (Input.endless env front eof).tokens.size = front.length := by
        simp [Input.endless]
      unfold Input.advanced
      split
      · show front.length ≤ t.cursor - 1 + 1
        omega
      next outside =>
        have outside : ¬ t.cursor - 1 < (Input.endless env front eof).tokens.size := outside
        show front.length ≤ t.cursor - 1
        omega
    have fails := statementStep_end (i := .endless env front eof) ends
      (Input.token_endless (Nat.le_of_eq at_.symm)) back (Input.token_endless behind) nested
    rw [last] at fails
    exact fails

section scripts

variable (plain : env.hostDirectives = []) (ends : eof.kind = .eof) {s : State}
  (start : s.cursor = 0)
include plain ends start

/-- With its end, a script that ends where a statement is to be read fails on its end. -/
theorem script_whole :
    (Fails unfinished probe (.whole env front eof) s →
      Fails ⟨eof.location, .unexpected .expression .eof⟩ script (.whole env front eof) s) ∧
    (¬ Fails unfinished probe (.whole env front eof) s →
      given script (.whole env front eof) s = given probe (.whole env front eof) s) :=
  (probes_whole plain ends).script_cut (.start start) False.elim
    (script_faultless (Input.ends_whole ends) plain s)

/-- Without its end, a script that ends where a statement is to be read fails on its last token. -/
theorem script_endless :
    (Fails unfinished probe (.whole env front eof) s →
      Fails (stray (front.getLast?.getD eof) eof) script (.endless env front eof) s) ∧
    (¬ Fails unfinished probe (.whole env front eof) s →
      given script (.endless env front eof) s = given probe (.whole env front eof) s) := by
  refine (probes_endless plain ends).script_cut (.start start)
    (fun _ e failed out => ?_) (script_faultless (Input.ends_endless ends) plain s)
  by_cases early : Fails unfinished probe (.whole env front eof) s
  · rw [fails_iff] at early failed
    obtain rfl : unfinished = e := Except.error.inj (early.symm.trans failed)
    cases out
  · have same := (script_whole plain ends start).2 early
    obtain ⟨s', run⟩ := fails_iff.2 (same.trans (fails_iff.1 failed))
    have fault := (script_faultless (Input.ends_whole ends) plain s).not_fault_of_error run
    rw [out] at fault
    cases fault

end scripts

end ending

end Parse

/-! ## scripts without an end -/

/-- Leaves out the last token, which is the end of the script. -/
def dropEnd : Preprocessor := fun tokens => return tokens.dropLast

/-- What reading a script leaves, if its tokens are changed before they are read: its tree and the
functions that are registered with it. -/
def builtWith (p : Preprocessor) (env : Environment) (options : Options) (text : String) :
    Except CompileError (Option Node × FunctionTable) :=
  match Compile.readWith p text (.start env options) with
  | .ok _ s => .ok (s.root, s.generator.functions)
  | .error e _ => .error e

/-- How reading a script failed. -/
def failure? {α : Type} : Except CompileError α → Option CompileError
  | .ok _ => none
  | .error e => some e

/-- Whether the script ends where a statement is to be read that it cannot do without, such as the
body of a loop. -/
def endsEarly (env : Environment) (options : Options) (text : String) : Bool :=
  let probe : Compile Node := do
    Compile.tokenize text
    Compile.parsing Parse.probe
  match probe (.start env options) with
  | .ok .. => false
  | .error e _ => e = Parse.unfinished

/-- A session with the tokens of a script. -/
def Session.opened (env : Environment) (options : Options) (text : String) (front : List Token)
    (eof : Token) : Session :=
  let record := tokenizedRecord options.sourceName options.startingLine text (front.length + 1)
  { Session.start env options with
    tokens := (front ++ [eof]).toArray
    eof
    generator := { log := #[record] } }

/-- What a reader of these tokens starts with. -/
def Parse.State.opened (options : Options) (text : String) (front : List Token) : State where
  log := #[tokenizedRecord options.sourceName options.startingLine text (front.length + 1)]

section main

variable {env : Environment} {options : Options} {text : String} {front tokens : List Token}
  {eof : Token}

/-- A script has an end. -/
theorem tokens_of_tokenize {source : Option String} {line : Nat}
    (lexed : tokenize source line text = .ok tokens) :
    ∃ front eof, tokens = front ++ [eof] ∧ eof.kind = .eof := by
  have ends := tokensFrom_ends source (.lineStart line) text.toList
  rw [show tokensFrom source (.lineStart line) text.toList = .ok tokens from lexed] at ends
  obtain ⟨l, last⟩ := ends
  obtain ⟨front, rfl⟩ := List.getLast?_eq_some_iff.1 last
  exact ⟨front, _, rfl, rfl⟩

/-- Tokenizing a text opens the session that its tokens give. -/
theorem tokenize_start
    (lexed : tokenize options.sourceName options.startingLine text = .ok (front ++ [eof])) :
    Compile.tokenize text (.start env options) = .ok ⟨⟩ (.opened env options text front eof) := by
  let record := tokenizedRecord options.sourceName options.startingLine text (front.length + 1)
  have read : Compile.logging (readTokens options.sourceName options.startingLine text)
      (.start env options) = .ok (front ++ [eof])
        { Session.start env options with generator := { log := #[record] } } := by
    simp only [Compile.logging, readTokens, lexed, List.length_append, List.length_singleton]
    rfl
  have last : (front ++ [eof]).getLast?.getD (Session.start env options).eof = eof := by simp
  unfold Compile.tokenize
  rw [get_bind]
  refine (bind_of_ok read).trans ?_
  show EStateM.Result.ok _ _ = _
  dsimp only
  rw [last]
  rfl

/-- What a reader gives to the session it works in. -/
theorem Compile.parsing_given {α : Type} (x : Parse α) (s : Session) :
    (match Compile.parsing x s with
      | .ok a s' => Except.ok (a, s'.generator.functions)
      | .error e _ => .error e) =
      Parse.given x s.input s.reader := by
  unfold Compile.parsing Parse.given
  cases x s.input s.reader with
  | ok a state => rfl
  | error e state => rfl

/-- Reading a script is reading its tokens, as they were changed, before the end that it had. -/
theorem builtWith_eq (f : List Token → List Token)
    (lexed : tokenize options.sourceName options.startingLine text = .ok (front ++ [eof])) :
    builtWith (fun tokens => return f tokens) env options text =
      (Parse.given Parse.script ⟨env, (f (front ++ [eof])).toArray, eof⟩
        (.opened options text front)).map fun read => (some read.1, read.2) := by
  let s : Session := { Session.opened env options text front eof with
    tokens := (f (front ++ [eof])).toArray }
  have changed : Compile.preprocess (fun tokens => return f tokens)
      (.opened env options text front eof) = .ok ⟨⟩ s := rfl
  have run : Compile.readWith (fun tokens => return f tokens) text (.start env options) =
      Compile.build s := by
    unfold Compile.readWith
    rw [bind_of_ok (tokenize_start lexed), bind_of_ok changed]
  have given := Compile.parsing_given Parse.script s
  unfold builtWith
  rw [run]
  refine Eq.trans ?_ (congrArg _ given)
  show (match (Compile.parsing Parse.script >>= fun root =>
    modify fun s => { s with root := some root } : Compile Unit) s with
      | .ok _ s => Except.ok (s.root, s.generator.functions)
      | .error e _ => .error e) = _
  cases parsed : Compile.parsing Parse.script s with
  | ok root s' =>
      rw [bind_of_ok parsed]
      rfl
  | error e s' =>
      rw [bind_of_error parsed]
      rfl

/-- That a script ends too soon can be found out by the probe. -/
theorem endsEarly_iff
    (lexed : tokenize options.sourceName options.startingLine text = .ok (front ++ [eof])) :
    endsEarly env options text ↔
      Parse.Fails Parse.unfinished Parse.probe (.whole env front eof)
        (.opened options text front) := by
  have given := Compile.parsing_given Parse.probe (.opened env options text front eof)
  rw [Parse.fails_iff]
  unfold endsEarly
  dsimp only
  rw [bind_of_ok (tokenize_start lexed)]
  refine Iff.trans ?_ (iff_of_eq (congrArg (· = Except.error Parse.unfinished) given))
  cases Compile.parsing Parse.probe (.opened env options text front eof) with
  | ok root s => simp
  | error e s => simp

/-- It makes no difference to the tree of a script or to how it fails whether the end of the script
is among its tokens, unless it ends where a statement is to be read.  Then both readers fail, one on
the end of the script and the other on its last token, which it takes for a statement. -/
theorem builtWith_dropEnd (plain : env.hostDirectives = [])
    (lexed : tokenize options.sourceName options.startingLine text = .ok tokens) :
    ∃ front eof, tokens = front ++ [eof] ∧ eof.kind = .eof ∧
      (endsEarly env options text = false →
        builtWith dropEnd env options text = builtWith noPreprocessing env options text) ∧
      (endsEarly env options text = true →
        builtWith noPreprocessing env options text =
            .error ⟨eof.location, .unexpected .expression .eof⟩ ∧
          builtWith dropEnd env options text =
            .error (Parse.stray (front.getLast?.getD eof) eof)) := by
  obtain ⟨front, eof, rfl, ends⟩ := tokens_of_tokenize lexed
  have whole : builtWith noPreprocessing env options text = _ := builtWith_eq id lexed
  have endless : builtWith dropEnd env options text = _ := builtWith_eq List.dropLast lexed
  rw [List.dropLast_concat] at endless
  refine ⟨front, eof, rfl, ends, fun finished => ?_, fun early => ?_⟩
  · have finished : ¬ Parse.Fails Parse.unfinished Parse.probe (.whole env front eof)
        (.opened options text front) := by
      rw [← endsEarly_iff lexed, finished]
      exact Bool.false_ne_true
    have same := ((Parse.script_endless plain ends rfl).2 finished).trans
      ((Parse.script_whole plain ends rfl).2 finished).symm
    rw [whole, endless]
    exact congrArg _ same
  · have early := (endsEarly_iff lexed).1 early
    have fails := Parse.fails_iff.1 ((Parse.script_whole plain ends rfl).1 early)
    have strays := Parse.fails_iff.1 ((Parse.script_endless plain ends rfl).1 early)
    exact ⟨whole.trans (congrArg _ fails), endless.trans (congrArg _ strays)⟩

end main

/-- A condition with nothing to do under it. -/
def halfScript : String := "if x"

def halfTokens : List Token :=
  [⟨.keyword .ifKw, ⟨none, 1, 1⟩⟩, ⟨.identifier "x", ⟨none, 1, 4⟩⟩, ⟨.eof, ⟨none, 2, 1⟩⟩]

/-- The script has one token before its end. -/
theorem tokenize_halfScript : tokenize none 1 halfScript = .ok halfTokens := by
  have known : (tokenize none 1 halfScript).toOption = some halfTokens := by decide +kernel
  cases lexed : tokenize none 1 halfScript with
  | error e =>
      rw [lexed] at known
      cases known
  | ok tokens =>
      rw [lexed] at known
      rw [Option.some.inj known]

theorem builtWith_dropEnd_half :
    builtWith noPreprocessing {} {} halfScript =
        .error ⟨⟨none, 2, 1⟩, .unexpected .expression .eof⟩ ∧
      builtWith dropEnd {} {} halfScript = .error ⟨⟨none, 1, 4⟩, .notAStatement "identifier"⟩ := by
  have plain : ({} : Environment).hostDirectives = [] := rfl
  have lexed : tokenize ({} : Options).sourceName ({} : Options).startingLine halfScript =
    .ok halfTokens := tokenize_halfScript
  obtain ⟨front, eof, same, -, -, fails⟩ := builtWith_dropEnd plain lexed
  obtain ⟨rfl, last⟩ := List.append_inj' (show halfTokens.dropLast ++ _ = _ from same) rfl
  cases last
  exact fails (by decide +kernel)

/-- So the two are not the same for all scripts. -/
theorem builtWith_dropEnd_ne : ¬ ∀ env options text tokens, env.hostDirectives = [] →
    tokenize options.sourceName options.startingLine text = .ok tokens →
    builtWith dropEnd env options text = builtWith noPreprocessing env options text := by
  intro same
  have same := congrArg failure? (same {} {} halfScript halfTokens rfl tokenize_halfScript)
  have whole : failure? (builtWith noPreprocessing {} {} halfScript) =
    some ⟨⟨none, 2, 1⟩, .unexpected .expression .eof⟩ := by decide +kernel
  have endless : failure? (builtWith dropEnd {} {} halfScript) =
    some ⟨⟨none, 1, 4⟩, .notAStatement "identifier"⟩ := by decide +kernel
  rw [whole, endless] at same
  cases same

end HostScript
