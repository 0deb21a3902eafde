import HostScript.Proofs.Grammar
import HostScript.Proofs.Parallel.Basic
import Mathlib.Data.List.Forall2

/-!
# HostScript.Proofs.Parallel.Reading

Reading a script twice side by side.  No reader looks at the place of a token but to put it into a
tree or an error, and a reader asks the host about nothing but the words that it meets.  So from the
same tokens at other places come the same trees at other places.
-/

namespace HostScript

/-! ## precedence -/

namespace Precedence

variable {α β : Type} {related : α → β → Prop} {combine : α → BinaryOperator → α → α}
  {combine' : β → BinaryOperator → β → β}

/-- The same operator, and operands that are related. -/
def Steps (related : α → β → Prop) (x : BinaryOperator × α) (y : BinaryOperator × β) : Prop :=
  y.1 = x.1 ∧ related x.2 y.2

/-- Runs with the same operators and related operands. -/
def Runs (related : α → β → Prop) (x : Run α) (y : Run β) : Prop :=
  related x.1 y.1 ∧ List.Forall₂ (Steps related) x.2 y.2

variable (joins : ∀ {a a' b b'} op, related a a' → related b b' →
  related (combine a op b) (combine' a' op b'))

include joins

/-- One pass over related operands joins the same ones. -/
theorem pass_alike (category : Nat) {first : α} {first' : β} {rest : List (BinaryOperator × α)}
    {rest' : List (BinaryOperator × β)} (h : related first first')
    (steps : List.Forall₂ (Steps related) rest rest') :
    Runs related (pass combine category first rest) (pass combine' category first' rest') := by
  induction steps generalizing first first' with
  | nil => exact ⟨h, .nil⟩
  | @cons step step' rest rest' same _ ih =>
      obtain ⟨op, second⟩ := step
      obtain ⟨op', second'⟩ := step'
      obtain ⟨rfl, operands⟩ : op' = op ∧ related second second' := same
      unfold pass
      by_cases now : op'.category = category
      · rw [if_pos now, if_pos now]
        exact ih (joins op' h operands)
      · rw [if_neg now, if_neg now]
        have later := ih operands
        exact ⟨h, .cons ⟨rfl, later.1⟩ later.2⟩

/-- Any number of passes over related operands joins the same ones. -/
theorem passes_alike {run : Run α} {run' : Run β} (h : Runs related run run') (count : Nat) :
    Runs related (passes combine run count) (passes combine' run' count) := by
  induction count with
  | zero => exact h
  | succ count ih => exact pass_alike joins count ih.1 ih.2

/-- Operands do not matter for how they are joined. -/
theorem fold?_alike {first : α} {first' : β} {rest : List (BinaryOperator × α)}
    {rest' : List (BinaryOperator × β)} (h : related first first')
    (steps : List.Forall₂ (Steps related) rest rest') :
    Option.Rel related (fold? combine (first, rest)) (fold? combine' (first', rest')) := by
  have runs : Runs related (first, rest) (first', rest') := ⟨h, steps⟩
  obtain ⟨same, left⟩ := passes_alike joins runs (BinaryOperator.maxCategory + 1)
  unfold fold?
  generalize passes combine (first, rest) _ = run at same left
  generalize passes combine' (first', rest') _ = run' at same left
  obtain ⟨tree, ops⟩ := run
  obtain ⟨tree', ops'⟩ := run'
  cases left with
  | nil => exact .some same
  | cons => exact .none

end Precedence

/-! ## two readers -/

/-- The cursor is at the same token, where the same is allowed, and the same functions were
found. -/
structure Parse.State.Alike (s t : Parse.State) : Prop where
  cursor : t.cursor = s.cursor
  allowed : t.allowed = s.allowed
  functions : t.functions = s.functions

namespace Comparison

/-- The same tokens for the hosts of a comparison. -/
structure Inputs (c : Comparison) (i i' : Parse.Input) : Prop where
  first : i.environment = c.first
  second : i'.environment = c.second
  size : i'.tokens.size = i.tokens.size
  tokens : ∀ k : Nat, c.Words (i.tokens[k]?.getD i.eof) (i'.tokens[k]?.getD i'.eof)

/-- The readers find results that are alike, or fail for the same cause. -/
def Reads {α β : Type} (c : Comparison) (post : α → β → Prop) (x : Parse α) (y : Parse β) : Prop :=
  ∀ i i', c.Inputs i i' → Parallel c.place Parse.State.Alike post (x i) (y i')

/-- The second trees are the first ones at their places. -/
def Forests (c : Comparison) (nodes nodes' : List Node) : Prop :=
  UsesAll c.known nodes ∧ nodes' = moveAll c.place nodes

variable {c : Comparison}

/-- One more related tree. -/
theorem Forests.cons {node node' : Node} {nodes nodes' : List Node} (h : c.Trees node node')
    (rest : c.Forests nodes nodes') : c.Forests (node :: nodes) (node' :: nodes') := by
  obtain ⟨uses, rfl⟩ := h
  obtain ⟨usesAll, rfl⟩ := rest
  exact ⟨⟨uses, usesAll⟩, rfl⟩

/-- A forest is related if its trees are. -/
theorem Forests.of_forall₂ {nodes nodes' : List Node} (h : List.Forall₂ c.Trees nodes nodes') :
    c.Forests nodes nodes' := by
  induction h with
  | nil => exact ⟨trivial, rfl⟩
  | cons first _ ih => exact ih.cons first

namespace Trees

variable {node node' : Node} {nodes nodes' : List Node}

/-- Trees are related if they have the same shape, with related parts and moved places. -/
theorem chain (h : c.Trees node node') (l : Location) {rest rest' : Node}
    (links : c.Trees rest rest') :
    c.Trees (.chain l node rest) (.chain (l.move c.place) node' rest') := by
  obtain ⟨uses, rfl⟩ := h
  obtain ⟨uses', rfl⟩ := links
  exact ⟨⟨uses, uses'⟩, by rw [Node.move]⟩

/-- Calls of a known name. -/
theorem call (l : Location) {name : String} (known : c.known name) (h : c.Forests nodes nodes') :
    c.Trees (.call l name nodes) (.call (l.move c.place) name nodes') := by
  obtain ⟨uses, rfl⟩ := h
  exact ⟨⟨known, uses⟩, by rw [Node.move]⟩

/-- Static calls on a known template. -/
theorem staticCall (l : Location) {template : String} (known : c.known template) (name : String)
    (h : c.Forests nodes nodes') :
    c.Trees (.staticCall l template name nodes)
      (.staticCall (l.move c.place) template name nodes') := by
  obtain ⟨uses, rfl⟩ := h
  exact ⟨⟨known, uses⟩, by rw [Node.move]⟩

theorem unary (h : c.Trees node node') (l : Location) (op : UnaryOperator) :
    c.Trees (.unary l op node) (.unary (l.move c.place) op node') := by
  obtain ⟨uses, rfl⟩ := h
  exact ⟨uses, by rw [Node.move]⟩

theorem adjust (h : c.Trees node node') (l : Location) (kind : AdjustKind) (direction : Direction) :
    c.Trees (.adjust l kind node direction) (.adjust (l.move c.place) kind node' direction) := by
  obtain ⟨uses, rfl⟩ := h
  exact ⟨uses, by rw [Node.move]⟩

/-- Related trees are at moved places. -/
theorem location (h : c.Trees node node') : node'.location = node.location.move c.place := by
  rw [h.2, Node.location_move]

/-- Joined trees are related, since their operators are the same. -/
theorem join {right right' : Node} (op : BinaryOperator) (h : c.Trees node node')
    (h' : c.Trees right right') :
    c.Trees (Precedence.join node op right) (Precedence.join node' op right') := by
  unfold Precedence.join
  rw [h.location]
  obtain ⟨uses, rfl⟩ := h
  obtain ⟨uses', rfl⟩ := h'
  exact ⟨⟨uses, uses'⟩, by rw [Node.move]⟩

theorem block (l : Location) (h : c.Forests nodes nodes') :
    c.Trees (.block l nodes) (.block (l.move c.place) nodes') := by
  obtain ⟨uses, rfl⟩ := h
  exact ⟨uses, by rw [Node.move]⟩

end Trees

/-- The second tree, if there is one, is the first one at its place. -/
def Optionals (c : Comparison) (node node' : Option Node) : Prop :=
  UsesOptional c.known node ∧ node' = moveOptional c.place node

theorem Optionals.none : c.Optionals none none := ⟨trivial, rfl⟩

/-- The second cases and default are the first ones at their places. -/
def Branches (c : Comparison) (branches branches' : List SwitchCase × Option Node) : Prop :=
  (UsesCases c.known branches.1 ∧ UsesOptional c.known branches.2) ∧
    branches' = (moveCases c.place branches.1, moveOptional c.place branches.2)

namespace Reads

variable {α β γ δ : Type} {x : Parse α} {y : Parse β} {post : α → β → Prop} {post' : γ → δ → Prop}

/-- Two readers in sequence, with a relation between what they return first. -/
theorem bind {f : α → Parse γ} {g : β → Parse δ} (h : c.Reads post x y)
    (rest : ∀ a b, post a b → c.Reads post' (f a) (g b)) : c.Reads post' (x >>= f) (y >>= g) :=
  fun i i' same => (h i i' same).bind fun a b result => rest a b result i i' same

/-- The same where both return the same first. -/
theorem bindEq {y : Parse α} {f : α → Parse γ} {g : α → Parse δ} (h : c.Reads Eq x y)
    (rest : ∀ a, c.Reads post' (f a) (g a)) : c.Reads post' (x >>= f) (y >>= g) :=
  h.bind fun a _ same => same ▸ rest a

theorem pure {a : α} {b : β} (h : post a b) : c.Reads post (pure a) (pure b) :=
  fun _ _ _ => .pure h

/-- Both readers fail for the same reason. -/
theorem fail (l : Location) (cause : Cause) :
    c.Reads post (Parse.fail l cause) (Parse.fail (l.move c.place) cause) :=
  fun _ _ _ => .throw ⟨l, cause⟩

/-- What stands behind a failure does not matter. -/
theorem failBefore (l : Location) (cause : Cause) {f : γ → Parse α} {g : δ → Parse β} :
    c.Reads post (Parse.fail l cause >>= f) (Parse.fail (l.move c.place) cause >>= g) :=
  fun _ _ _ _ _ _ => .error

end Reads

end Comparison

namespace Parse

variable {c : Comparison}

/-! ## tokens -/

/-- Both readers see the same word, be it at another place. -/
theorem peek_alike (offset : Nat) : c.Reads c.Words (peek offset) (peek offset) := by
  intro i i' same s t state
  have token := same.tokens (s.cursor + offset)
  rw [← state.cursor] at token
  refine .ok ?_ state
  rwa [state.cursor] at token ⊢

theorem current_alike : c.Reads c.Words current current := peek_alike 0

/-- As many tokens are left for both. -/
theorem remaining_alike : c.Reads Eq remaining remaining := by
  intro i i' same s t state
  refine .ok ?_ state
  rw [same.size, state.cursor]

/-- Both readers move on. -/
theorem advance_alike : c.Reads Eq advance advance := by
  intro i i' same s t state
  refine .ok rfl ?_
  rw [same.size, state.cursor]
  split
  · exact ⟨rfl, state.allowed, state.functions⟩
  · exact state

theorem retreat_alike : c.Reads Eq retreat retreat := by
  intro i i' same s t state
  exact .ok rfl ⟨by rw [state.cursor], state.allowed, state.functions⟩

theorem record_alike (entry entry' : LogRecord) : c.Reads Eq (record entry) (record entry') :=
  fun _ _ _ => .modify fun _ _ state => ⟨state.cursor, state.allowed, state.functions⟩

/-- Each reader has the host of its own. -/
theorem environment_alike :
    c.Reads (fun env env' => env = c.first ∧ env' = c.second) environment environment :=
  fun _ _ same _ _ state => .ok ⟨same.first, same.second⟩ state

theorem allowed_alike : c.Reads Eq allowed allowed :=
  fun _ _ _ _ _ state => .ok state.allowed.symm state

/-- What is allowed in brackets is the same on both sides, and so is what is put back. -/
theorem bracket_alike {α β : Type} {post : α → β → Prop} {x : Parse α} {y : Parse β}
    (enter : Allowed → Allowed) (restore : Allowed → Allowed → Allowed) (h : c.Reads post x y) :
    c.Reads post (bracket enter restore x) (bracket enter restore y) := by
  intro i i' same s t state
  have inside := h i i' same { s with allowed := enter s.allowed }
    { t with allowed := enter t.allowed } ⟨state.cursor, by rw [state.allowed], state.functions⟩
  unfold bracket
  generalize x i _ = result, y i' _ = result' at inside ⊢
  cases inside with
  | ok result after =>
      exact .ok result ⟨after.cursor, by rw [state.allowed, after.allowed], after.functions⟩
  | error => exact .error

/-- Both readers allow the same in a part and put back the same. -/
theorem within_alike {α β : Type} {post : α → β → Prop} {x : Parse α} {y : Parse β}
    (inner : Allowed) (h : c.Reads post x y) : c.Reads post (within inner x) (within inner y) :=
  bracket_alike _ _ h

/-- Both readers take the same word. -/
theorem next_alike : c.Reads c.Words next next :=
  current_alike.bind fun _ _ words => advance_alike.bindEq fun _ => .pure words

/-- Both readers run out of fuel together. -/
theorem noProgress_alike {α β : Type} {post : α → β → Prop} :
    c.Reads post noProgress noProgress := by
  refine current_alike.bind ?_
  rintro token _ ⟨-, rfl⟩
  exact .fail _ _

/-- A word is there for both or for none. -/
theorem accept_alike (kind : TokenKind) : c.Reads Eq (accept kind) (accept kind) := by
  refine current_alike.bind ?_
  rintro token _ ⟨-, rfl⟩
  by_cases same : token.kind = kind
  · simp only [Token.move, same, if_true]
    exact advance_alike.bindEq fun _ => .pure rfl
  · simp only [Token.move, same, if_false]
    exact .pure rfl

/-- A word that has to be there is there for both, or they fail for the same reason. -/
theorem expect_alike (kind : TokenKind) : c.Reads c.Words (expect kind) (expect kind) := by
  refine next_alike.bind ?_
  rintro token _ ⟨words, rfl⟩
  by_cases same : token.kind = kind
  · simp only [Token.move, same, if_true]
    exact .pure ⟨words, by simp [Token.move, same]⟩
  · simp only [Token.move, same, if_false]
    exact .fail _ _

variable {α β : Type} {post : α → β → Prop} {item : Parse (Option α)} {item' : Parse (Option β)}

/-- Items are related one by one, by induction on the fuel. -/
theorem collect_alike (h : c.Reads (Option.Rel post) item item') (fuel : Nat) :
    c.Reads (List.Forall₂ post) (collect item fuel) (collect item' fuel) := by
  induction fuel with
  | zero => exact noProgress_alike
  | succ fuel ih =>
      refine h.bind fun a b found => ?_
      cases found with
      | none => exact .pure .nil
      | some first => exact ih.bind fun _ _ rest => .pure (.cons first rest)

theorem many_alike (h : c.Reads (Option.Rel post) item item') :
    c.Reads (List.Forall₂ post) (many item) (many item') :=
  remaining_alike.bindEq fun left => collect_alike h (left + 1)

/-! ## expressions -/

/-- An increment behind related targets. -/
theorem adjusted_alike {node node' : Node} (tree : c.Trees node node') :
    c.Reads c.Trees (adjusted node) (adjusted node') := by
  refine current_alike.bind ?_
  rintro ⟨kind, l⟩ _ ⟨-, rfl⟩
  cases kind with
  | adjust direction =>
      refine advance_alike.bindEq fun _ => .pure ?_
      rw [tree.location]
      exact tree.adjust node.location .after direction
  | _ => exact .pure tree

section expressions

variable {nested nested' : Bool → Parse Node}
  (inner : ∀ b, c.Reads c.Trees (nested b) (nested' b))

include inner

/-- Arguments from any of them on, by induction on the fuel. -/
theorem argumentsFrom_alike (opening : Location) (fuel : Nat) :
    c.Reads c.Forests (argumentsFrom nested opening fuel)
      (argumentsFrom nested' (opening.move c.place) fuel) := by
  induction fuel with
  | zero => exact noProgress_alike
  | succ fuel ih =>
      refine (inner true).bind fun argument argument' tree => ?_
      refine next_alike.bind ?_
      rintro ⟨kind, l⟩ _ ⟨-, rfl⟩
      cases kind with
      | comma => exact ih.bind fun _ _ rest => .pure (rest.cons tree)
      | parenClose => exact .pure (.cons tree ⟨trivial, rfl⟩)
      | eof => exact .fail _ _
      | _ => exact .fail _ _

theorem arguments_alike : c.Reads c.Forests (arguments nested) (arguments nested') := by
  refine (expect_alike .parenOpen).bind ?_
  rintro opening _ ⟨-, rfl⟩
  refine (accept_alike .parenClose).bindEq fun closed => ?_
  cases closed with
  | true => exact .pure ⟨trivial, rfl⟩
  | false => exact remaining_alike.bindEq fun left => argumentsFrom_alike inner _ _

/-- The links of a chain, by induction on the fuel. -/
theorem chainLinks_alike (fuel : Nat) :
    c.Reads c.Trees (chainLinks nested fuel) (chainLinks nested' fuel) := by
  induction fuel with
  | zero => exact noProgress_alike
  | succ fuel ih =>
      refine next_alike.bind ?_
      rintro ⟨kind, l⟩ _ ⟨words, rfl⟩
      cases kind with
      | identifier name =>
          have known := words name rfl
          have rest {link link' : Node} (tree : c.Trees link link') : c.Reads c.Trees
              (do if ← accept .period then return .chain l link (← chainLinks nested fuel)
                  else return link)
              (do if ← accept .period then
                    return .chain (l.move c.place) link' (← chainLinks nested' fuel)
                  else return link') := by
            refine (accept_alike .period).bindEq fun more => ?_
            cases more with
            | true => exact ih.bind fun _ _ links => .pure (tree.chain l links)
            | false => exact .pure tree
          refine current_alike.bind ?_
          rintro token _ ⟨-, rfl⟩
          by_cases call : token.kind = .parenOpen
          · simp only [Token.move, call, if_true]
            exact (arguments_alike inner).bind fun _ _ forest => rest (.call l known forest)
          · simp only [Token.move, call, if_false]
            exact rest ⟨known, by rw [Node.move]⟩
      | _ => exact .fail _ _

/-- Related values go on with related chains. -/
theorem continueChain_alike (l : Location) {base base' : Node} (tree : c.Trees base base') :
    c.Reads c.Trees (continueChain nested l base)
      (continueChain nested' (l.move c.place) base') := by
  refine (accept_alike .period).bindEq fun more => ?_
  cases more with
  | true =>
      exact remaining_alike.bindEq fun left => (chainLinks_alike inner (left + 1)).bind
        fun _ _ links => .pure (tree.chain l links)
  | false => exact .pure tree

/-- A known name is taken for the same by both: whether it is a template does not depend on the
host. -/
theorem identifierExpression_alike (l : Location) {name : String} (known : c.known name) :
    c.Reads c.Trees (identifierExpression nested l name)
      (identifierExpression nested' (l.move c.place) name) := by
  have rest {base base' : Node} (tree : c.Trees base base') := continueChain_alike inner l tree
  have plain : c.Reads c.Trees (continueChain nested l (.identifier l name))
      (continueChain nested' (l.move c.place) (.identifier (l.move c.place) name)) :=
    rest ⟨known, rfl⟩
  refine environment_alike.bind ?_
  rintro _ _ ⟨rfl, rfl⟩
  rw [(c.agree name known).template]
  refine current_alike.bind ?_
  rintro ⟨kind, l₁⟩ _ ⟨-, rfl⟩
  refine (peek_alike 1).bind ?_
  rintro ⟨kind', l₂⟩ _ ⟨-, rfl⟩
  cases kind with
  | parenOpen =>
      exact (arguments_alike inner).bind fun _ _ forest => rest (.call l known forest)
  | period =>
      cases c.first.template? name with
      | none => exact plain
      | some template =>
          cases kind' with
          | identifier function =>
              exact advance_alike.bindEq fun _ => advance_alike.bindEq fun _ =>
                (arguments_alike inner).bind fun _ _ forest =>
                  rest (.staticCall l known function forest)
          | _ => exact plain
  | _ => exact plain

/-- The arguments of a constructor and what is chained to its result. -/
theorem construction_alike (l : Location) {name : String} (known : c.known name)
    (template : Template) (function : String) :
    c.Reads c.Trees (do
      let arguments ← arguments nested
      match template.staticFunction? function arguments.length with
      | none => fail l (.noConstructor name function arguments.length)
      | some _ => continueChain nested l (.staticCall l name function arguments)) (do
      let arguments ← arguments nested'
      match template.staticFunction? function arguments.length with
      | none => fail (l.move c.place) (.noConstructor name function arguments.length)
      | some _ =>
        continueChain nested' (l.move c.place)
          (.staticCall (l.move c.place) name function arguments)) := by
  refine (arguments_alike inner).bind ?_
  rintro arguments _ ⟨uses, rfl⟩
  rw [length_moveAll]
  cases template.staticFunction? function arguments.length with
  | none => exact .fail _ _
  | some _ => exact continueChain_alike inner l (.staticCall l known function ⟨uses, rfl⟩)

/-- A constructor of a known template. -/
theorem newExpression_alike (l : Location) :
    c.Reads c.Trees (newExpression nested l) (newExpression nested' (l.move c.place)) := by
  refine next_alike.bind ?_
  rintro ⟨kind, l₁⟩ _ ⟨words, rfl⟩
  cases kind with
  | identifier name =>
      have known := words name rfl
      refine environment_alike.bind ?_
      rintro _ _ ⟨rfl, rfl⟩
      simp only [Token.move, (c.agree name known).template]
      cases c.first.template? name with
      | none => exact .fail _ _
      | some template =>
          have rest (function : String) := construction_alike inner l known template function
          refine (accept_alike .period).bindEq fun named => ?_
          cases named with
          | true =>
              refine next_alike.bind ?_
              rintro ⟨kind', l₂⟩ _ ⟨-, rfl⟩
              cases kind' with
              | identifier function => exact rest function
              | _ => exact .failBefore _ _
          | false => exact rest Template.constructor
  | _ => exact .fail _ _

/-- An operand by its first word, which is the same. -/
theorem operand_alike : c.Reads c.Trees (operand nested) (operand nested') := by
  refine next_alike.bind ?_
  rintro ⟨kind, l⟩ _ ⟨words, rfl⟩
  cases kind with
  | number value | string value => exact .pure ⟨trivial, rfl⟩
  | identifier name => exact identifierExpression_alike inner l (words name rfl)
  | parenOpen =>
      exact (inner true).bind fun _ _ tree =>
        (expect_alike .parenClose).bind fun _ _ _ => .pure tree
  | operator op =>
      cases op with
      | sub => exact (inner false).bind fun _ _ tree => .pure (tree.unary l _)
      | _ => exact .fail _ _
  | unary op => exact (inner false).bind fun _ _ tree => .pure (tree.unary l op)
  | adjust direction =>
      exact (inner false).bind fun _ _ tree => .pure (tree.adjust l .before direction)
  | keyword word =>
      cases word with
      | nullKw => exact .pure ⟨trivial, rfl⟩
      | newKw => exact newExpression_alike inner l
      | _ => exact .fail _ _
  | _ => exact .fail _ _

/-- An operator and related operands, or none for both. -/
theorem operatorAndOperand_alike :
    c.Reads (Option.Rel (Precedence.Steps c.Trees)) (operatorAndOperand nested)
      (operatorAndOperand nested') := by
  refine current_alike.bind ?_
  rintro ⟨kind, l⟩ _ ⟨-, rfl⟩
  cases kind with
  | operator op =>
      exact advance_alike.bindEq fun _ => (inner false).bind fun _ _ tree =>
        .pure (.some ⟨rfl, tree⟩)
  | _ => exact .pure .none

/-- Both readers climb in the same way. -/
theorem operators_alike {node node' : Node} (tree : c.Trees node node') :
    c.Reads c.Trees (operators nested node) (operators nested' node') := by
  refine (many_alike (operatorAndOperand_alike inner)).bind fun rest rest' steps => ?_
  have folded := Precedence.fold?_alike Comparison.Trees.join tree steps
  generalize Precedence.fold? Precedence.join (node, rest) = whole at folded
  generalize Precedence.fold? Precedence.join (node', rest') = whole' at folded
  cases folded with
  | none =>
      refine current_alike.bind ?_
      rintro token _ ⟨-, rfl⟩
      exact .fail _ _
  | some same => exact .pure same

/-- An expression is read alike if nested ones are. -/
theorem expressionStep_alike (withOperators : Bool) :
    c.Reads c.Trees (expressionStep nested withOperators)
      (expressionStep nested' withOperators) := by
  refine (operand_alike inner).bind fun _ _ tree => (adjusted_alike tree).bind fun _ _ tree => ?_
  cases withOperators with
  | true => exact operators_alike inner tree
  | false => exact .pure tree

end expressions

/-- Expressions are read alike, by induction on the fuel. -/
theorem expressionAt_alike (fuel : Nat) (withOperators : Bool) :
    c.Reads c.Trees (expressionAt fuel withOperators) (expressionAt fuel withOperators) := by
  induction fuel generalizing withOperators with
  | zero => exact noProgress_alike
  | succ fuel ih => exact expressionStep_alike ih withOperators

theorem expression_alike (withOperators : Bool) :
    c.Reads c.Trees (expression withOperators) (expression withOperators) :=
  remaining_alike.bindEq fun left => expressionAt_alike (left + 1) withOperators

/-! ## names -/

theorem labelName_alike : c.Reads Eq labelName labelName := by
  refine next_alike.bind ?_
  rintro ⟨kind, l⟩ _ ⟨-, rfl⟩
  cases kind with
  | identifier name | string name => exact .pure rfl
  | _ => exact .fail _ _

/-- The rest of a directive whose name has been read.  A host without rules of its own has nothing
but markers, behind which nothing is read. -/
theorem directiveRule_alike {nested nested' : Parse Node} (l : Location) (token : Token)
    {name : String} (known : c.known name) :
    c.Reads c.Trees (do
      match (← environment).directive? name with
      | none => fail token.location (.invalidDirective name)
      | some rule =>
        let (code, statements) ← directiveBody nested token rule
        record (.directive name l)
        return .directive l name code statements) (do
      match (← environment).directive? name with
      | none => fail (token.move c.place).location (.invalidDirective name)
      | some rule =>
        let (code, statements) ← directiveBody nested' (token.move c.place) rule
        record (.directive name (l.move c.place))
        return .directive (l.move c.place) name code statements) := by
  refine environment_alike.bind ?_
  rintro _ _ ⟨rfl, rfl⟩
  rw [(c.agree name known).directive, Environment.directive?_of_plain c.plain]
  by_cases marked : name ∈ c.first.directives
  · rw [if_pos marked]
    exact (record_alike _ _).bindEq fun _ => .pure ⟨⟨by simp, trivial⟩, rfl⟩
  · rw [if_neg marked]
    exact .fail _ _

/-- Parameters are the same, by induction on the fuel. -/
theorem parametersFrom_alike (function : String) (fuel : Nat) (parameters : List String) :
    c.Reads Eq (parametersFrom function fuel parameters)
      (parametersFrom function fuel parameters) := by
  induction fuel generalizing parameters with
  | zero => exact noProgress_alike
  | succ fuel ih =>
      refine next_alike.bind ?_
      rintro ⟨kind, l⟩ _ ⟨-, rfl⟩
      cases kind with
      | identifier parameter =>
          by_cases twice : parameter ∈ parameters
          · simp only [Token.move, twice, if_true]
            exact .failBefore _ _
          · simp only [Token.move, twice, if_false]
            refine next_alike.bind ?_
            rintro ⟨separator, l₁⟩ _ ⟨-, rfl⟩
            cases separator with
            | comma => exact ih _
            | parenClose => exact .pure rfl
            | _ => exact .fail _ _
      | _ => exact .fail _ _

theorem parameters_alike (function : String) :
    c.Reads Eq (parameters function) (parameters function) := by
  refine (expect_alike .parenOpen).bind fun _ _ _ => ?_
  refine (accept_alike .parenClose).bindEq fun closed => ?_
  cases closed with
  | true => exact .pure rfl
  | false => exact remaining_alike.bindEq fun left => parametersFrom_alike function _ _

/-- Hosts that agree on a name have the same use for it. -/
theorem rival?_eq {name : String} (known : c.known name) (functions : FunctionTable) (argc : Nat) :
    rival? c.second functions name argc = rival? c.first functions name argc := by
  have agree := c.agree name known
  unfold rival?
  rw [agree.macroSignature, agree.builtin, agree.constant, agree.globalFunction]

/-- A known name is taken for both or for none. -/
theorem register_alike {name : String} (known : c.known name) (parameters : List String)
    (l : Location) :
    c.Reads Eq (register name parameters l) (register name parameters (l.move c.place)) := by
  have got : c.Reads Parse.State.Alike (get : Parse Parse.State) get := fun _ _ _ => .get
  refine got.bind fun s t state => ?_
  rw [state.functions]
  refine environment_alike.bind ?_
  rintro _ _ ⟨rfl, rfl⟩
  rw [rival?_eq known]
  cases rival? c.first s.functions name parameters.length with
  | some rival => exact .fail _ _
  | none =>
      have registered : c.Reads Eq
          (modify fun state => { state with functions := s.functions.register name parameters })
          (modify fun state => { state with functions := s.functions.register name parameters }) :=
        fun _ _ _ => .modify fun _ _ state => ⟨state.cursor, state.allowed, rfl⟩
      exact registered.bindEq fun _ => (record_alike _ _).bindEq fun _ => .pure rfl

/-! ## blocks and switches -/

section bodies

variable {nested nested' : Parse Node} (inner : c.Reads c.Trees nested nested')

include inner

/-- A block ends for both or goes on for both. -/
theorem blockItem_alike (opening : Location) :
    c.Reads (Option.Rel c.Trees) (blockItem nested opening)
      (blockItem nested' (opening.move c.place)) := by
  refine current_alike.bind ?_
  rintro ⟨kind, l⟩ _ ⟨-, rfl⟩
  cases kind with
  | braceClose => exact advance_alike.bindEq fun _ => .pure .none
  | eof => exact .fail _ _
  | _ => exact inner.bind fun _ _ tree => .pure (.some tree)

theorem block_alike (opening : Location) :
    c.Reads c.Trees (block nested opening) (block nested' (opening.move c.place)) :=
  (many_alike (blockItem_alike inner opening)).bind fun _ _ items =>
    .pure (.block opening (.of_forall₂ items))

/-- A case ends for both or goes on for both. -/
theorem caseItem_alike (switch : Location) :
    c.Reads (Option.Rel c.Trees) (caseItem nested switch)
      (caseItem nested' (switch.move c.place)) := by
  refine current_alike.bind ?_
  rintro ⟨kind, l⟩ _ ⟨-, rfl⟩
  cases kind with
  | braceClose => exact .pure .none
  | keyword word =>
      cases word with
      | caseKw | defaultKw => exact .pure .none
      | _ => exact inner.bind fun _ _ tree => .pure (.some tree)
  | eof => exact .fail _ _
  | _ => exact inner.bind fun _ _ tree => .pure (.some tree)

theorem caseBody_alike (switch l : Location) :
    c.Reads c.Trees (caseBody nested switch l)
      (caseBody nested' (switch.move c.place) (l.move c.place)) :=
  (many_alike (caseItem_alike inner switch)).bind fun _ _ items =>
    .pure (.block l (.of_forall₂ items))

/-- Related cases, by induction on the fuel; a second default is one for both. -/
theorem casesFrom_alike (switch : Location) (fuel : Nat) {fallback fallback' : Option Node}
    (found : c.Optionals fallback fallback') :
    c.Reads c.Branches (casesFrom nested switch fuel fallback)
      (casesFrom nested' (switch.move c.place) fuel fallback') := by
  induction fuel generalizing fallback fallback' with
  | zero => exact noProgress_alike
  | succ fuel ih =>
      refine next_alike.bind ?_
      rintro ⟨kind, l⟩ _ ⟨-, rfl⟩
      cases kind with
      | keyword word =>
          cases word with
          | caseKw =>
              refine (expression_alike true).bind ?_
              rintro value _ ⟨usesValue, rfl⟩
              refine (expect_alike .colon).bind fun _ _ _ => ?_
              refine (caseBody_alike inner switch l).bind ?_
              rintro body _ ⟨usesBody, rfl⟩
              refine (ih found).bind ?_
              rintro ⟨cases, rest⟩ _ ⟨⟨usesCases, usesRest⟩, rfl⟩
              exact .pure ⟨⟨⟨⟨usesValue, usesBody⟩, usesCases⟩, usesRest⟩, rfl⟩
          | defaultKw =>
              have more : c.Reads c.Branches
                  (do
                    let _ ← expect .colon
                    let body ← caseBody nested switch l
                    casesFrom nested switch fuel (some body))
                  (do
                    let _ ← expect .colon
                    let body ← caseBody nested' (switch.move c.place) (l.move c.place)
                    casesFrom nested' (switch.move c.place) fuel (some body)) := by
                refine (expect_alike .colon).bind fun _ _ _ => ?_
                refine (caseBody_alike inner switch l).bind ?_
                rintro body _ ⟨uses, rfl⟩
                exact ih ⟨uses, rfl⟩
              obtain ⟨-, rfl⟩ := found
              cases fallback with
              | some body => exact .failBefore _ _
              | none => exact more
          | _ => exact .fail _ _
      | braceClose =>
          obtain ⟨uses, rfl⟩ := found
          exact .pure ⟨⟨trivial, uses⟩, rfl⟩
      | _ => exact .fail _ _

/-- A label before related statements. -/
theorem label_alike (l : Location) :
    c.Reads c.Trees (label nested l) (label nested' (l.move c.place)) := by
  refine labelName_alike.bindEq fun name => ?_
  refine (accept_alike .colon).bindEq fun _ => ?_
  refine current_alike.bind ?_
  rintro ⟨kind, l₁⟩ _ ⟨-, rfl⟩
  have behind : c.Reads c.Trees (return .label l name (← nested))
      (return .label (l.move c.place) name (← nested')) := by
    refine inner.bind ?_
    rintro statement _ ⟨uses, rfl⟩
    exact .pure ⟨uses, rfl⟩
  cases kind with
  | braceClose | eof => exact .pure ⟨trivial, rfl⟩
  | _ => exact behind

omit inner in
/-- A directive of a known name has the same rule for both. -/
theorem directive_alike (l : Location) :
    c.Reads c.Trees (directive nested l) (directive nested' (l.move c.place)) := by
  refine next_alike.bind ?_
  rintro ⟨kind, l₁⟩ _ ⟨words, rfl⟩
  cases kind with
  | identifier name => exact directiveRule_alike l _ (words name rfl)
  | keyword word => exact directiveRule_alike l _ (words word.text rfl)
  | _ => exact .fail _ _

end bodies

/-! ## statements -/

/-- An expression that stands alone has to have an effect. -/
theorem effect_alike (l : Location) (node : Node) :
    node.Uses c.known → c.Reads c.Trees (match node with
      | .adjust location _ target direction =>
        return .adjust location .statement target direction
      | .call .. | .staticCall .. | .chain .. => return .discard l node
      | other => fail other.location (.notAStatement other.kindName)) (match node.move c.place with
      | .adjust location _ target direction =>
        return .adjust location .statement target direction
      | .call .. | .staticCall .. | .chain .. =>
        return .discard (l.move c.place) (node.move c.place)
      | other => fail other.location (.notAStatement other.kindName)) := by
  intro uses
  cases node with
  | adjust => exact .pure ⟨uses, rfl⟩
  | call | staticCall | chain => exact .pure ⟨uses, rfl⟩
  | switch _ kind => cases kind <;> exact .fail _ _
  | _ => exact .fail _ _

/-- A statement that starts like an expression. -/
theorem expressionStatement_alike (l : Location) :
    c.Reads c.Trees (expressionStatement l) (expressionStatement (l.move c.place)) := by
  refine (expression_alike false).bind ?_
  rintro node _ ⟨uses, rfl⟩
  refine current_alike.bind ?_
  rintro ⟨kind, l₁⟩ _ ⟨-, rfl⟩
  have alone := effect_alike l node uses
  cases kind with
  | set op =>
      refine advance_alike.bindEq fun _ => (expression_alike true).bind ?_
      rintro value _ ⟨usesValue, rfl⟩
      exact .pure ⟨⟨uses, usesValue⟩, rfl⟩
  | _ => exact alone

/-- A return statement returns related values or none. -/
theorem returnValue_alike : c.Reads c.Optionals returnValue returnValue := by
  refine current_alike.bind ?_
  rintro ⟨kind, l⟩ _ ⟨-, rfl⟩
  have value : c.Reads c.Optionals (return some (← expression true))
      (return some (← expression true)) := by
    refine (expression_alike true).bind ?_
    rintro node _ ⟨uses, rfl⟩
    exact .pure ⟨uses, rfl⟩
  cases kind with
  | semicolon | braceClose | eof => exact .pure ⟨trivial, rfl⟩
  | _ => exact value

section statements

variable {nested nested' : Parse Node} (inner : c.Reads c.Trees nested nested')

include inner

/-- A switch is read alike if nested statements are. -/
theorem switch_alike (l : Location) (kind : SwitchKind) :
    c.Reads c.Trees (switch nested l kind) (switch nested' (l.move c.place) kind) := by
  refine (expression_alike true).bind ?_
  rintro value _ ⟨usesValue, rfl⟩
  refine (expect_alike .braceOpen).bind fun _ _ _ => ?_
  refine remaining_alike.bindEq fun left => ?_
  refine (bracket_alike _ _ (casesFrom_alike inner l (left + 1) .none)).bind ?_
  rintro ⟨cases, fallback⟩ _ ⟨⟨usesCases, usesFallback⟩, rfl⟩
  exact .pure ⟨⟨usesValue, usesCases, usesFallback⟩, rfl⟩

/-- A for loop is read alike if nested statements are. -/
theorem forLoop_alike (l : Location) :
    c.Reads c.Trees (forLoop nested l) (forLoop nested' (l.move c.place)) := by
  refine (accept_alike .parenOpen).bindEq fun parenthesized => ?_
  refine inner.bind ?_
  rintro init _ ⟨usesInit, rfl⟩
  refine (expression_alike true).bind ?_
  rintro condition _ ⟨usesCondition, rfl⟩
  refine (accept_alike .semicolon).bindEq fun _ => ?_
  refine (within_alike .loopPost inner).bind ?_
  rintro post _ ⟨usesPost, rfl⟩
  have rest : c.Reads c.Trees
      (return .forLoop l init condition post (← within .loopBody nested))
      (return .forLoop (l.move c.place) (init.move c.place) (condition.move c.place)
        (post.move c.place) (← within .loopBody nested')) := by
    refine (within_alike .loopBody inner).bind ?_
    rintro body _ ⟨usesBody, rfl⟩
    exact .pure ⟨⟨usesInit, usesCondition, usesPost, usesBody⟩, rfl⟩
  cases parenthesized with
  | true => exact (expect_alike .parenClose).bind fun _ _ _ => rest
  | false => exact rest

/-- A function is read alike if nested statements are, and its name is taken for both or for
none. -/
theorem function_alike (l : Location) :
    c.Reads c.Trees (function nested l) (function nested' (l.move c.place)) := by
  refine next_alike.bind ?_
  rintro ⟨kind, l₁⟩ _ ⟨words, rfl⟩
  cases kind with
  | identifier name =>
      refine (parameters_alike name).bindEq fun parameters => ?_
      refine current_alike.bind ?_
      rintro opening _ ⟨-, rfl⟩
      by_cases starts : opening.kind = .braceOpen
      · simp only [Token.move, starts, ne_eq, not_true_eq_false, if_false]
        refine (within_alike .nowhere inner).bind ?_
        rintro body _ ⟨uses, rfl⟩
        exact (register_alike (words name rfl) parameters l₁).bindEq fun id => .pure ⟨uses, rfl⟩
      · simp only [Token.move, starts, ne_eq, not_false_eq_true, if_true]
        exact .failBefore _ _
  | _ => exact .fail _ _

/-- Both readers find the other branch or none does. -/
theorem branch_alike (l : Location) :
    c.Reads c.Trees (do
      let condition ← expression true
      let accepted ← nested
      if ← accept (.keyword .elseKw) then
        return .branch l condition accepted (some (← nested))
      else return .branch l condition accepted none) (do
      let condition ← expression true
      let accepted ← nested'
      if ← accept (.keyword .elseKw) then
        return .branch (l.move c.place) condition accepted (some (← nested'))
      else return .branch (l.move c.place) condition accepted none) := by
  refine (expression_alike true).bind ?_
  rintro condition _ ⟨usesCondition, rfl⟩
  refine inner.bind ?_
  rintro accepted _ ⟨usesAccepted, rfl⟩
  refine (accept_alike _).bindEq fun more => ?_
  cases more with
  | true =>
      refine inner.bind ?_
      rintro otherwise _ ⟨usesOtherwise, rfl⟩
      exact .pure ⟨⟨usesCondition, usesAccepted, usesOtherwise⟩, rfl⟩
  | false => exact .pure ⟨⟨usesCondition, usesAccepted, trivial⟩, rfl⟩

/-- A statement by its first word, which is the same. -/
theorem statementFrom_alike {token token' : Token} (words : c.Words token token') :
    c.Reads c.Trees (statementFrom nested token) (statementFrom nested' token') := by
  obtain ⟨-, rfl⟩ := words
  obtain ⟨kind, l⟩ := token
  have effect : c.Reads c.Trees (do retreat; expressionStatement l)
      (do retreat; expressionStatement (l.move c.place)) :=
    retreat_alike.bindEq fun _ => expressionStatement_alike l
  cases kind with
  | braceOpen => exact block_alike inner l
  | pound => exact directive_alike l
  | keyword word =>
      cases word with
      | returnKw =>
          refine returnValue_alike.bind ?_
          rintro value _ ⟨uses, rfl⟩
          exact .pure ⟨uses, rfl⟩
      | ifKw => exact branch_alike inner l
      | switchKw => exact switch_alike inner l .switch
      | selectKw => exact switch_alike inner l .select
      | whileKw =>
          refine (expression_alike true).bind ?_
          rintro condition _ ⟨usesCondition, rfl⟩
          refine (within_alike .loopBody inner).bind ?_
          rintro body _ ⟨usesBody, rfl⟩
          exact .pure ⟨⟨usesCondition, usesBody⟩, rfl⟩
      | doKw =>
          refine (within_alike .loopBody inner).bind ?_
          rintro body _ ⟨usesBody, rfl⟩
          refine (expect_alike _).bind fun _ _ _ => (expression_alike true).bind ?_
          rintro condition _ ⟨usesCondition, rfl⟩
          exact .pure ⟨⟨usesBody, usesCondition⟩, rfl⟩
      | forKw => exact forLoop_alike inner l
      | breakKw =>
          refine allowed_alike.bindEq fun allowed => ?_
          cases allowed.leave with
          | true => exact .pure ⟨trivial, rfl⟩
          | false => exact .fail _ _
      | continueKw =>
          refine allowed_alike.bindEq fun allowed => ?_
          cases allowed.proceed with
          | true => exact .pure ⟨trivial, rfl⟩
          | false => exact .fail _ _
      | labelKw => exact label_alike inner l
      | jumpKw => exact labelName_alike.bindEq fun _ => .pure ⟨trivial, rfl⟩
      | callKw => exact labelName_alike.bindEq fun _ => .pure ⟨trivial, rfl⟩
      | backKw => exact .pure ⟨trivial, rfl⟩
      | functionKw => exact function_alike inner l
      | _ => exact effect
  | _ => exact effect

theorem statementStep_alike :
    c.Reads c.Trees (statementStep nested) (statementStep nested') :=
  next_alike.bind fun _ _ words => (statementFrom_alike inner words).bind fun _ _ tree =>
    (accept_alike .semicolon).bindEq fun _ => .pure tree

end statements

/-- Statements are read alike, by induction on the fuel. -/
theorem statementAt_alike (fuel : Nat) :
    c.Reads c.Trees (statementAt fuel) (statementAt fuel) := by
  induction fuel with
  | zero => exact noProgress_alike
  | succ fuel ih => exact statementStep_alike ih

theorem statement_alike : c.Reads c.Trees statement statement :=
  remaining_alike.bindEq fun left => statementAt_alike (left + 1)

/-- The script ends for both or goes on for both. -/
theorem scriptItem_alike : c.Reads (Option.Rel c.Trees) scriptItem scriptItem := by
  refine current_alike.bind ?_
  rintro ⟨kind, l⟩ _ ⟨-, rfl⟩
  cases kind with
  | eof => exact .pure .none
  | _ => exact statement_alike.bind fun _ _ tree => .pure (.some tree)

/-- The same tokens at other places make the same tree at another place. -/
theorem script_alike : c.Reads c.Trees script script := by
  have outside : c.Reads Eq (modify fun state => { state with allowed := .nowhere } : Parse PUnit)
      (modify fun state => { state with allowed := .nowhere }) :=
    fun _ _ _ => .modify fun _ _ state => ⟨state.cursor, rfl, state.functions⟩
  refine outside.bindEq fun _ => current_alike.bind ?_
  rintro ⟨kind, l⟩ _ ⟨-, rfl⟩
  refine (many_alike scriptItem_alike).bind fun _ _ items => ?_
  have got : c.Reads Parse.State.Alike (get : Parse Parse.State) get := fun _ _ _ => .get
  exact got.bind fun _ _ _ => (record_alike _ _).bindEq fun _ =>
    .pure (.block l (.of_forall₂ items))

end Parse

end HostScript
