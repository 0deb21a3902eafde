import HostScript.Node.Parse.Expression

/-!
# HostScript.Proofs.Climbing

The tree that operators and operands are folded into.  A `Tree` keeps its operands as they are, so
that the operations which the fold makes can be told from those inside of an operand in parentheses.
It is graded if every operation binds looser than its right part and no tighter than its left part.

There is only one graded tree with given operands and operators from left to right
(`Graded.unique`).  The fold makes a graded tree, and so does precedence climbing, which reads the
operators once from left to right; so they make the same one.  At the end stands the fold once more
as sweeps over two lists by index, in which no index is ever out of range.
-/

namespace HostScript.Precedence

variable {α : Type} {combine : α → BinaryOperator → α → α}

/-! ## trees -/

/-- How operands are joined. -/
inductive Tree (α : Type) where
  | operand (a : α)
  | joined (left : Tree α) (op : BinaryOperator) (right : Tree α)
deriving DecidableEq, Repr

namespace Tree

/-- What a tree comes to when its operands are combined. -/
def value (combine : α → BinaryOperator → α → α) : Tree α → α
  | operand a => a
  | joined left op right => combine (left.value combine) op (right.value combine)

/-- The leftmost operand. -/
def first : Tree α → α
  | operand a => a
  | joined left _ _ => left.first

/-- The operators and operands behind the leftmost operand, from left to right. -/
def rest : Tree α → List (BinaryOperator × α)
  | operand _ => []
  | joined left op right => left.rest ++ (op, right.first) :: right.rest

/-- The operands and operators from left to right. -/
def run (t : Tree α) : Run α := (t.first, t.rest)

/-- The tree and all the parts that it is joined of. -/
def parts : Tree α → List (Tree α)
  | operand a => [operand a]
  | joined left op right => joined left op right :: (left.parts ++ right.parts)

/-- An operand, or an operation of a category below `bound`. -/
def Below (bound : Nat) : Tree α → Prop
  | operand _ => True
  | joined _ op _ => op.category < bound

/-- The left part of an operation binds at least as tight as the operation, its right part
tighter. -/
def Graded : Tree α → Prop
  | operand _ => True
  | joined left op right =>
    left.Graded ∧ right.Graded ∧ left.Below (op.category + 1) ∧ right.Below op.category

theorem Below.mono {t : Tree α} {m n : Nat} (h : t.Below m) (le : m ≤ n) : t.Below n := by
  cases t with
  | operand => trivial
  | joined left op right => exact Nat.lt_of_lt_of_le h le

/-- A tree of operations below a bound has no operators at or above it. -/
theorem Graded.category_lt {t : Tree α} (graded : t.Graded) {bound : Nat} (below : t.Below bound) :
    ∀ p ∈ t.rest, p.1.category < bound := by
  induction t generalizing bound with
  | operand => simp [rest]
  | joined left op right ihLeft ihRight =>
      obtain ⟨gradedLeft, gradedRight, belowLeft, belowRight⟩ := graded
      have here : op.category < bound := below
      have inLeft := ihLeft gradedLeft (belowLeft.mono here)
      have inRight := ihRight gradedRight (belowRight.mono (Nat.le_of_lt here))
      intro p member
      rcases List.mem_append.1 member with member | member
      · exact inLeft p member
      · rcases List.mem_cons.1 member with rfl | member
        · exact here
        · exact inRight p member

/-- The operation at the top of a graded tree is the last one among the loosest: to its right all
are tighter. -/
theorem append_cons_inj {p q : BinaryOperator × α} {as bs cs ds : List (BinaryOperator × α)}
    (same : as ++ p :: bs = cs ++ q :: ds)
    (left : ∀ r ∈ as, r.1.category ≤ p.1.category) (right : ∀ r ∈ bs, r.1.category < p.1.category)
    (left' : ∀ r ∈ cs, r.1.category ≤ q.1.category)
    (right' : ∀ r ∈ ds, r.1.category < q.1.category) : as = cs ∧ p = q ∧ bs = ds := by
  rcases List.append_eq_append_iff.1 same with ⟨es, rfl, shift⟩ | ⟨es, rfl, shift⟩
  · cases es with
    | nil =>
        obtain ⟨rfl, rfl⟩ := List.cons.inj shift
        exact ⟨(List.append_nil as).symm, rfl, rfl⟩
    | cons e es =>
        obtain ⟨rfl, rfl⟩ := List.cons.inj shift
        have looser := left' p (by simp)
        have tighter := right q (by simp)
        omega
  · cases es with
    | nil =>
        obtain ⟨rfl, rfl⟩ := List.cons.inj shift
        exact ⟨List.append_nil cs, rfl, rfl⟩
    | cons e es =>
        obtain ⟨rfl, rfl⟩ := List.cons.inj shift
        have looser := left q (by simp)
        have tighter := right' p (by simp)
        omega

/-- Operands and operators can be joined to a graded tree in one way only. -/
theorem Graded.unique {t u : Tree α} (graded : t.Graded) (graded' : u.Graded)
    (same : t.run = u.run) : t = u := by
  induction t generalizing u with
  | operand a =>
      cases u with
      | operand b => rw [show a = b from congrArg Prod.fst same]
      | joined left op right => simp [run, rest] at same
  | joined left op right ihLeft ihRight =>
      cases u with
      | operand b => simp [run, rest] at same
      | joined left' op' right' =>
          obtain ⟨gradedLeft, gradedRight, belowLeft, belowRight⟩ := graded
          obtain ⟨gradedLeft', gradedRight', belowLeft', belowRight'⟩ := graded'
          have firsts : left.first = left'.first := congrArg Prod.fst same
          have rests : left.rest ++ (op, right.first) :: right.rest =
              left'.rest ++ (op', right'.first) :: right'.rest := congrArg Prod.snd same
          obtain ⟨lefts, middles, rights⟩ := append_cons_inj rests
            (fun r member => Nat.le_of_lt_succ (gradedLeft.category_lt belowLeft r member))
            (gradedRight.category_lt belowRight)
            (fun r member => Nat.le_of_lt_succ (gradedLeft'.category_lt belowLeft' r member))
            (gradedRight'.category_lt belowRight')
          obtain ⟨rfl, seconds⟩ := Prod.mk.inj middles
          rw [ihLeft gradedLeft gradedLeft' (Prod.ext firsts lefts),
            ihRight gradedRight gradedRight' (Prod.ext seconds rights)]

/-- An operation stands where its leftmost operand does. -/
theorem location_value (t : Tree Node) : (t.value join).location = t.first.location := by
  induction t with
  | operand => rfl
  | joined left op right ihLeft _ => exact ihLeft

end Tree

/-! ## the fold -/

/-- Trees with operators between them, each tree for what it comes to. -/
def values (combine : α → BinaryOperator → α → α) (rest : List (BinaryOperator × Tree α)) :
    List (BinaryOperator × α) :=
  rest.map fun p => (p.1, p.2.value combine)

/-- The operators and operands that trees with operators between them are made of. -/
def spread (rest : List (BinaryOperator × Tree α)) : List (BinaryOperator × α) :=
  rest.flatMap fun p => (p.1, p.2.first) :: p.2.rest

/-- A pass joins graded trees to graded trees and moves none of their operands. -/
theorem pass_graded (combine : α → BinaryOperator → α → α) (category : Nat) (first : Tree α)
    (rest : List (BinaryOperator × Tree α))
    (head : first.Graded ∧ first.Below (category + 1))
    (tail : ∀ p ∈ rest, category ≤ p.1.category ∧ p.2.Graded ∧ p.2.Below category) :
    ∃ (tree : Tree α) (left : List (BinaryOperator × Tree α)),
      pass combine category (first.value combine) (values combine rest) =
          (tree.value combine, values combine left) ∧
        (tree.Graded ∧ tree.Below (category + 1)) ∧
        (∀ p ∈ left, category + 1 ≤ p.1.category ∧ p.2.Graded ∧ p.2.Below (category + 1)) ∧
        tree.first = first.first ∧ tree.rest ++ spread left = first.rest ++ spread rest := by
  induction rest generalizing first with
  | nil => exact ⟨first, [], rfl, head, by simp, rfl, rfl⟩
  | cons p rest ih =>
      obtain ⟨op, second⟩ := p
      obtain ⟨⟨least, gradedSecond, belowSecond⟩, others⟩ := List.forall_mem_cons.1 tail
      show ∃ tree left, pass combine category (first.value combine)
        ((op, second.value combine) :: values combine rest) = _ ∧ _
      unfold pass
      by_cases same : op.category = category
      · rw [if_pos same]
        have joined : (Tree.joined first op second).Graded ∧
            (Tree.joined first op second).Below (category + 1) := by
          subst same
          exact ⟨⟨head.1, gradedSecond, head.2, belowSecond⟩, Nat.lt_succ_self _⟩
        obtain ⟨tree, left, passed, graded, tails, firsts, rests⟩ := ih _ joined others
        refine ⟨tree, left, passed, graded, tails, firsts, rests.trans ?_⟩
        simp [Tree.rest, spread]
      · rw [if_neg same]
        have looser : category + 1 ≤ op.category := Nat.lt_of_le_of_ne least (Ne.symm same)
        obtain ⟨tree, left, passed, graded, tails, firsts, rests⟩ :=
          ih second ⟨gradedSecond, belowSecond.mono (Nat.le_succ _)⟩ others
        refine ⟨first, (op, tree) :: left, by rw [passed]; rfl, head,
          List.forall_mem_cons.2 ⟨⟨looser, graded⟩, tails⟩, rfl, ?_⟩
        have later : (op, tree.first) :: (tree.rest ++ spread left) =
            (op, second.first) :: (second.rest ++ spread rest) := by rw [firsts, rests]
        simpa [spread] using later

/-- The passes for the first categories join operands to graded trees of these categories. -/
theorem passes_graded (combine : α → BinaryOperator → α → α) (run : Run α) (count : Nat) :
    ∃ (tree : Tree α) (left : List (BinaryOperator × Tree α)),
      passes combine run count = (tree.value combine, values combine left) ∧
        (tree.Graded ∧ tree.Below count) ∧
        (∀ p ∈ left, count ≤ p.1.category ∧ p.2.Graded ∧ p.2.Below count) ∧
        tree.first = run.1 ∧ tree.rest ++ spread left = run.2 := by
  induction count with
  | zero =>
      -- before the first pass every operand is a tree by itself
      have plain : values combine (run.2.map fun p => (p.1, .operand p.2)) = run.2 := by
        simp [values, Function.comp_def, Tree.value]
      refine ⟨.operand run.1, run.2.map fun p => (p.1, .operand p.2), by rw [plain]; rfl,
        ⟨trivial, trivial⟩, fun p member => ?_, rfl, ?_⟩
      · obtain ⟨q, -, rfl⟩ := List.mem_map.1 member
        exact ⟨Nat.zero_le _, trivial, trivial⟩
      · simp [spread, Tree.rest, Tree.first, List.flatMap_map]
  | succ category ih =>
      obtain ⟨first, rest, passed, ⟨graded, below⟩, tails, firsts, rests⟩ := ih
      obtain ⟨tree, left, joined, graded', tails', firsts', rests'⟩ :=
        pass_graded combine category first rest ⟨graded, below.mono (Nat.le_succ _)⟩ tails
      exact ⟨tree, left, by rw [passes, passed]; exact joined, graded', tails',
        firsts'.trans firsts, rests'.trans rests⟩

/-- The fold joins its operands to a graded tree. -/
theorem passes_end (combine : α → BinaryOperator → α → α) (run : Run α) :
    ∃ tree : Tree α, passes combine run (BinaryOperator.maxCategory + 1) =
      (tree.value combine, []) ∧ tree.Graded ∧ tree.run = run := by
  obtain ⟨tree, left, passed, ⟨graded, -⟩, tails, firsts, rests⟩ :=
    passes_graded combine run (BinaryOperator.maxCategory + 1)
  cases left with
  | nil =>
      exact ⟨tree, passed, graded, Prod.ext firsts ((List.append_nil _).symm.trans rests)⟩
  | cons p left =>
      have loosest := p.1.category_le_maxCategory
      have beyond := (tails p List.mem_cons_self).1
      omega

/-! ## precedence climbing -/

/-- Joins the operators of the categories below `bound` as far as they go, each with what binds
tighter to its right. -/
def climb (combine : α → BinaryOperator → α → α) (bound : Nat) (first : α) :
    (rest : List (BinaryOperator × α)) → { run : Run α // run.2.length ≤ rest.length }
  | [] => ⟨(first, []), Nat.le_refl _⟩
  | (op, second) :: rest =>
    if op.category < bound then
      let ⟨(right, left), shorter⟩ := climb combine op.category second rest
      let ⟨run, shortest⟩ := climb combine bound (combine first op right) left
      ⟨run, Nat.le_succ_of_le (Nat.le_trans shortest shorter)⟩
    else ⟨(first, (op, second) :: rest), Nat.le_refl _⟩
termination_by rest => rest.length
decreasing_by
  · exact Nat.lt_succ_self _
  · exact Nat.lt_succ_of_le shorter

theorem climb_nil (bound : Nat) (first : α) : (climb combine bound first []).1 = (first, []) := by
  rw [climb]

theorem climb_cons (bound : Nat) (first second : α) (op : BinaryOperator)
    (rest : List (BinaryOperator × α)) :
    (climb combine bound first ((op, second) :: rest)).1 =
      if op.category < bound then
        (climb combine bound (combine first op (climb combine op.category second rest).1.1)
          (climb combine op.category second rest).1.2).1
      else (first, (op, second) :: rest) := by
  rw [climb]
  split <;> rfl

/-- Climbing on from a graded tree gives a graded tree, and stops at an operator that does not bind
tighter than `bound`. -/
theorem climb_graded (combine : α → BinaryOperator → α → α) (bound : Nat) (first : Tree α)
    (rest : List (BinaryOperator × α))
    (graded : first.Graded) (below : first.Below bound)
    (next : ∀ p ∈ rest.head?, first.Below (p.1.category + 1)) :
    ∃ (tree : Tree α) (left : List (BinaryOperator × α)),
      (climb combine bound (first.value combine) rest).1 = (tree.value combine, left) ∧
        tree.Graded ∧ tree.Below bound ∧ (∀ p ∈ left.head?, bound ≤ p.1.category) ∧
        tree.first = first.first ∧ tree.rest ++ left = first.rest ++ rest := by
  obtain ⟨n, size⟩ : ∃ n, rest.length < n := ⟨_, Nat.lt_succ_self _⟩
  induction n generalizing bound first rest with
  | zero => omega
  | succ n ih =>
      cases rest with
      | nil => exact ⟨first, [], climb_nil _ _, graded, below, by simp, rfl, rfl⟩
      | cons p rest =>
          obtain ⟨op, second⟩ := p
          rw [climb_cons]
          by_cases tight : op.category < bound
          · rw [if_pos tight]
            obtain ⟨right, middle, climbed, gradedRight, belowRight, nextRight, firstRight,
              restRight⟩ := ih op.category (.operand second) rest trivial trivial
                (by simp [Tree.Below]) (Nat.lt_of_succ_lt_succ size)
            have shorter : middle.length < n := by
              have lengths := congrArg List.length restRight
              simp only [Tree.rest, List.nil_append, List.length_append] at lengths
              simp only [List.length_cons] at size
              omega
            obtain ⟨tree, left, climbed', gradedTree, belowTree, nextTree, firstTree, restTree⟩ :=
              ih bound (.joined first op right) middle
                ⟨graded, gradedRight, next _ rfl, belowRight⟩ tight
                (fun q found => Nat.lt_succ_of_le (nextRight q found)) shorter
            refine ⟨tree, left, ?_, gradedTree, belowTree, nextTree, firstTree, ?_⟩
            · rw [show second = (Tree.operand second).value combine from rfl, climbed]
              exact climbed'
            · rw [restTree, Tree.rest, List.append_assoc, List.cons_append, restRight, firstRight]
              rfl
          · rw [if_neg tight]
            exact ⟨first, (op, second) :: rest, rfl, graded, below, by simpa using tight, rfl, rfl⟩

/-- Climbing from an operand joins all that follows to a graded tree. -/
theorem climb_end (combine : α → BinaryOperator → α → α) (run : Run α) :
    ∃ tree : Tree α, (climb combine (BinaryOperator.maxCategory + 1) run.1 run.2).1 =
      (tree.value combine, []) ∧ tree.Graded ∧ tree.run = run := by
  obtain ⟨tree, left, climbed, graded, -, next, firsts, rests⟩ :=
    climb_graded combine (BinaryOperator.maxCategory + 1) (.operand run.1) run.2
      trivial trivial (by simp [Tree.Below])
  cases left with
  | nil => exact ⟨tree, climbed, graded, Prod.ext firsts ((List.append_nil _).symm.trans rests)⟩
  | cons p left =>
      have loosest := p.1.category_le_maxCategory
      have beyond := next p rfl
      omega

/-! ## sweeps by index -/

/-- Sweeps over the operators from the one at `i` on: where one is of the category, it and the
operands on its two sides are taken out of the lists, and what they make is put in their place.
There is no result if an index is out of range. -/
def sweep (combine : α → BinaryOperator → α → α) (category i : Nat)
    (operators : List BinaryOperator) (operands : List α) :
    Option (List BinaryOperator × List α) :=
  if inside : i < operators.length then
    let op := operators[i]
    if op.category ≠ category then sweep combine category (i + 1) operators operands
    else
      match operands[i]?, operands[i + 1]? with
      | some left, some right =>
        sweep combine category i (operators.eraseIdx i)
          (((operands.eraseIdx (i + 1)).eraseIdx i).insertIdx i (combine left op right))
      | _, _ => none
  else some (operators, operands)
termination_by operators.length - i
decreasing_by
  · omega
  · rw [List.length_eraseIdx_of_lt inside]
    omega

/-- The sweeps for the first so many categories, one after the other. -/
def sweeps (combine : α → BinaryOperator → α → α) (operators : List BinaryOperator)
    (operands : List α) : Nat → Option (List BinaryOperator × List α)
  | 0 => some (operators, operands)
  | category + 1 => do
    let (operators, operands) ← sweeps combine operators operands category
    sweep combine category 0 operators operands

/-- What two neighbours make is put in their place. -/
theorem insertIdx_eraseIdx_eraseIdx (before : List α) (a b c : α) (behind : List α) :
    (((before ++ a :: b :: behind).eraseIdx (before.length + 1)).eraseIdx before.length).insertIdx
      before.length c = before ++ c :: behind := by
  induction before with
  | nil => rfl
  | cons x before ih => simpa using ih

/-- A sweep over the two lists of a run is a pass over the run.  What lies before `i` is not looked
at again. -/
theorem sweep_eq_pass (category : Nat) (done : List BinaryOperator) (before : List α)
    (aligned : before.length = done.length) (first : α) (rest : List (BinaryOperator × α)) :
    sweep combine category done.length (done ++ rest.map (·.1))
        (before ++ first :: rest.map (·.2)) =
      some (done ++ (pass combine category first rest).2.map (·.1),
        before ++ (pass combine category first rest).1 ::
          (pass combine category first rest).2.map (·.2)) := by
  induction rest generalizing done before first with
  | nil =>
      rw [sweep, dif_neg (by simp)]
      rfl
  | cons p rest ih =>
      obtain ⟨op, second⟩ := p
      have inside : done.length < (done ++ ((op, second) :: rest).map (·.1)).length := by simp
      rw [sweep, dif_pos inside]
      have here : (done ++ ((op, second) :: rest).map (·.1))[done.length] = op := by simp
      simp only [here]
      unfold pass
      by_cases same : op.category = category
      · rw [if_neg (by simpa using same), if_pos same]
        have operands : before ++ first :: ((op, second) :: rest).map (·.2) =
            before ++ first :: second :: rest.map (·.2) := rfl
        have left : (before ++ first :: second :: rest.map (·.2))[done.length]? = some first := by
          simp [← aligned]
        have right : (before ++ first :: second :: rest.map (·.2))[done.length + 1]? =
            some second := by
          simp [← aligned]
        have operators : (done ++ ((op, second) :: rest).map (·.1)).eraseIdx done.length =
            done ++ rest.map (·.1) := by
          simp [List.eraseIdx_append_of_length_le]
        have next := ih done before aligned (combine first op second)
        simp only [operands, left, right, operators]
        rw [← aligned, insertIdx_eraseIdx_eraseIdx, aligned, next]
      · rw [if_pos same, if_neg same]
        have next := ih (done ++ [op]) (before ++ [first]) (by simp [aligned]) second
        simpa using next

/-- The sweeps leave the lists of the run that the passes leave. -/
theorem sweeps_eq_passes (combine : α → BinaryOperator → α → α) (run : Run α) (count : Nat) :
    sweeps combine (run.2.map (·.1)) (run.1 :: run.2.map (·.2)) count =
      some ((passes combine run count).2.map (·.1),
        (passes combine run count).1 :: (passes combine run count).2.map (·.2)) := by
  induction count with
  | zero => rfl
  | succ category ih =>
      have aligned : ([] : List α).length = ([] : List BinaryOperator).length := rfl
      rw [sweeps, ih]
      exact sweep_eq_pass category [] [] aligned _ _

/-! ## main result -/

/-- However many operands follow each other, with whatever operators between them, they are joined
to one tree, the only one that is graded and has them all in their order.  It is the one that
precedence climbing makes, its operations stand where their leftmost operands do, and the sweeps by
index make it without ever leaving the lists. -/
theorem operators_join_by_precedence (nested : Bool → Parse Node) (first : Node) :
    (Parse.operators nested first = do
      let rest ← Parse.many (Parse.operatorAndOperand nested)
      return (climb join (BinaryOperator.maxCategory + 1) first rest).1.1) ∧
    ∀ rest : List (BinaryOperator × Node), ∃ tree : Tree Node,
      fold? join (first, rest) = some (tree.value join) ∧
      sweeps join (rest.map (·.1)) (first :: rest.map (·.2)) (BinaryOperator.maxCategory + 1) =
        some ([], [tree.value join]) ∧
      (climb join (BinaryOperator.maxCategory + 1) first rest).1 = (tree.value join, []) ∧
      tree.run = (first, rest) ∧ tree.Graded ∧
      (∀ other : Tree Node, other.run = (first, rest) → other.Graded → other = tree) ∧
      ∀ part ∈ tree.parts, (part.value join).location = part.first.location := by
  have trees (rest : List (BinaryOperator × Node)) : ∃ tree : Tree Node,
      passes join (first, rest) (BinaryOperator.maxCategory + 1) = (tree.value join, []) ∧
      (climb join (BinaryOperator.maxCategory + 1) first rest).1 = (tree.value join, []) ∧
      tree.run = (first, rest) ∧ tree.Graded := by
    obtain ⟨tree, passed, graded, run⟩ := passes_end join (first, rest)
    obtain ⟨tree', climbed, graded', run'⟩ := climb_end join (first, rest)
    obtain rfl := graded.unique graded' (run.trans run'.symm)
    exact ⟨tree, passed, climbed, run, graded⟩
  constructor
  · unfold Parse.operators
    congr
    funext rest
    obtain ⟨tree, passed, climbed, -⟩ := trees rest
    rw [fold?, passed, climbed]
  · intro rest
    obtain ⟨tree, passed, climbed, run, graded⟩ := trees rest
    refine ⟨tree, by rw [fold?, passed], ?_, climbed, run, graded, fun other same graded' => ?_,
      fun part _ => part.location_value⟩
    · have swept := sweeps_eq_passes join (first, rest) (BinaryOperator.maxCategory + 1)
      rw [passed] at swept
      exact swept
    · exact graded'.unique graded (same.trans run.symm)

end HostScript.Precedence
