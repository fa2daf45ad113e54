import InfixCalc.Proofs.Walk

/-!
# The leaves of an expression

Whatever an expression is made of stands in its leaves.  It has a value as soon as all
of them have one, whatever operators and functions compute.
-/

namespace InfixCalc

/-- The leaves from left to right. -/
def Expr.leaves : Expr → List Leaf
  | .leaf found => [found]
  | .apply _ left right => left.leaves ++ right.leaves

/-- The leaf is a number or a constant, and its value is there. -/
def Leaf.HasValue : Leaf → Prop
  | .number value => value.isSome = true
  | .constant _ value => value.isSome = true
  | .marker _ _ _ => False
  | .absent => False

/-- No marker and no absent operand is left in the expression. -/
def Expr.IsEvaluable (expr : Expr) : Prop :=
  ∀ leaf ∈ expr.leaves, leaf.HasValue

theorem Leaf.HasValue.exists_value {leaf : Leaf} (hvalue : leaf.HasValue) :
    ∃ value : Float, leaf.value = .ok (some value) := by
  cases leaf with
  | number value =>
      obtain ⟨known, rfl⟩ := Option.isSome_iff_exists.mp hvalue
      exact ⟨known, rfl⟩
  | constant name value =>
      obtain ⟨known, rfl⟩ := Option.isSome_iff_exists.mp hvalue
      exact ⟨known, rfl⟩
  | marker => exact hvalue.elim
  | absent => exact hvalue.elim

theorem Expr.isEvaluable_leaf {leaf : Leaf} :
    (Expr.leaf leaf).IsEvaluable ↔ leaf.HasValue := by
  simp only [Expr.IsEvaluable, Expr.leaves, List.mem_singleton, forall_eq]

theorem Expr.isEvaluable_apply {head : Head} {left right : Expr} :
    (Expr.apply head left right).IsEvaluable ↔
      left.IsEvaluable ∧ right.IsEvaluable := by
  simp only [Expr.IsEvaluable, Expr.leaves, List.forall_mem_append]

theorem Expr.IsEvaluable.exists_value {expr : Expr} (hevaluable : expr.IsEvaluable)
    (meaning : Meaning) :
    ∃ value : Float, expr.valueUnder meaning = .ok (some value) := by
  induction expr with
  | leaf found =>
      rw [Expr.valueUnder_leaf]
      exact (Expr.isEvaluable_leaf.mp hevaluable).exists_value
  | apply head left right ihleft ihright =>
      obtain ⟨hleft, hright⟩ := Expr.isEvaluable_apply.mp hevaluable
      obtain ⟨x, hx⟩ := ihleft hleft
      obtain ⟨y, hy⟩ := ihright hright
      exact ⟨_, valueUnder_apply_of_values head hx hy⟩

end InfixCalc
