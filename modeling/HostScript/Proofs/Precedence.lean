import HostScript.Node.Precedence

/-!
# HostScript.Proofs.Precedence

Folding operands and operators into one tree.  A pass leaves no operator of its own category behind
and brings in no others, so the passes for all categories leave none at all; and what holds of every
operand and of whatever is made of two of them holds of the tree.
-/

namespace HostScript.Precedence

variable {α : Type} {combine : α → BinaryOperator → α → α}

/-! ## the operators that are left -/

/-- What a pass leaves was there before and is of another category. -/
theorem pass_operators (category : Nat) (first : α) (rest : List (BinaryOperator × α)) :
    ∀ p ∈ (pass combine category first rest).2,
      p.1.category ≠ category ∧ ∃ q ∈ rest, q.1 = p.1 := by
  fun_induction pass combine category first rest with
  | case1 => nofun
  | case2 first op second rest same ih =>
      intro p member
      obtain ⟨other, q, there, same⟩ := ih p member
      exact ⟨other, q, List.mem_cons_of_mem _ there, same⟩
  | case3 first op second rest different second' rest' passed ih =>
      intro p member
      rw [passed] at ih
      rcases List.mem_cons.1 member with rfl | member
      · exact ⟨different, (op, second), List.mem_cons_self, rfl⟩
      · obtain ⟨other, q, there, same⟩ := ih p member
        exact ⟨other, q, List.mem_cons_of_mem _ there, same⟩

/-- The passes for the first categories leave only operators of the others. -/
theorem passes_operators (run : Run α) (count : Nat) :
    ∀ p ∈ (passes combine run count).2, count ≤ p.1.category := by
  induction count with
  | zero => exact fun _ _ => Nat.zero_le _
  | succ category ih =>
      intro p member
      obtain ⟨other, q, there, same⟩ := pass_operators _ _ _ p member
      have least := ih q there
      rw [same] at least
      omega

/-- All operators find their place in the tree. -/
theorem fold?_isSome (run : Run α) : (fold? combine run).isSome := by
  unfold fold?
  have left : ∀ p ∈ (passes combine run (BinaryOperator.maxCategory + 1)).2,
      BinaryOperator.maxCategory + 1 ≤ p.1.category := passes_operators run _
  match passes combine run (BinaryOperator.maxCategory + 1), left with
  | (tree, []), _ => rfl
  | (tree, p :: rest), left =>
      have loosest := p.1.category_le_maxCategory
      have beyond := left p List.mem_cons_self
      omega

/-! ## the operands of the tree -/

variable {P : α → Prop} (joins : ∀ a op b, P a → P b → P (combine a op b))

include joins

theorem pass_operands (category : Nat) (first : α) (rest : List (BinaryOperator × α))
    (head : P first) (tail : ∀ q ∈ rest, P q.2) :
    P (pass combine category first rest).1 ∧ ∀ q ∈ (pass combine category first rest).2, P q.2 := by
  fun_induction pass combine category first rest with
  | case1 => exact ⟨head, tail⟩
  | case2 first op second rest same ih =>
      exact ih (joins _ _ _ head (tail _ List.mem_cons_self))
        fun q member => tail q (List.mem_cons_of_mem _ member)
  | case3 first op second rest different second' rest' passed ih =>
      rw [passed] at ih
      obtain ⟨next, others⟩ := ih (tail _ List.mem_cons_self)
        fun q member => tail q (List.mem_cons_of_mem _ member)
      refine ⟨head, fun q member => ?_⟩
      rcases List.mem_cons.1 member with rfl | member
      · exact next
      · exact others q member

theorem passes_operands (run : Run α) (head : P run.1) (tail : ∀ q ∈ run.2, P q.2) (count : Nat) :
    P (passes combine run count).1 ∧ ∀ q ∈ (passes combine run count).2, P q.2 := by
  induction count with
  | zero => exact ⟨head, tail⟩
  | succ category ih => exact pass_operands joins category _ _ ih.1 ih.2

theorem fold?_operands {run : Run α} {tree : α} (head : P run.1) (tail : ∀ q ∈ run.2, P q.2)
    (h : fold? combine run = some tree) : P tree := by
  have all := passes_operands joins run head tail (BinaryOperator.maxCategory + 1)
  unfold fold? at h
  match passes combine run (BinaryOperator.maxCategory + 1), all, h with
  | (_, []), all, h => exact Option.some.inj h ▸ all.1

end HostScript.Precedence
