import Mathlib
import InfixCalc.Expr.Text
import InfixCalc.Expr.Value

/-!
# What a walk computes

The task list of a walk and the recursive fold visit the same nodes in the same
order.  So the value and the text of an expression, which are walks, obey the
recursive equations of a fold.
-/

namespace InfixCalc

universe u v

variable {ε : Type u} {α : Type v}

/-- Visiting an expression leaves its fold on the results, whatever is still to
be done and whatever lies there already. -/
theorem walkTasks_visit (leaf : Leaf → Except ε α)
    (branch : Head → Expr → Expr → α → α → Except ε α) (expr : Expr) :
    ∀ tasks results,
      walkTasks leaf branch (.visit expr :: tasks) results =
        match expr.fold leaf branch with
        | .ok result => walkTasks leaf branch tasks (result :: results)
        | .error failure => .error (.step failure) := by
  induction expr with
  | leaf found =>
      intro tasks results
      cases hleaf : leaf found with
      | error failure => simp only [walkTasks, Expr.fold, hleaf]
      | ok result => simp only [walkTasks, Expr.fold, hleaf]
  | apply head left right ihleft ihright =>
      intro tasks results
      rw [walkTasks, ihleft, Expr.fold]
      cases left.fold leaf branch with
      | error failure => rfl
      | ok first =>
          simp only [ihright]
          cases right.fold leaf branch with
          | error failure => rfl
          | ok second =>
              simp only [walkTasks]
              change _ = match branch head left right first second with
                | .ok result => walkTasks leaf branch tasks (result :: results)
                | .error failure => .error (.step failure)
              cases branch head left right first second <;> rfl

/-- A walk of one expression ends with one result. -/
theorem walkTasks_visit_single (leaf : Leaf → Except ε α)
    (branch : Head → Expr → Expr → α → α → Except ε α) (expr : Expr) :
    walkTasks leaf branch [.visit expr] [] =
      ((expr.fold leaf branch).map fun result => [result]).mapError .step := by
  rw [walkTasks_visit]
  cases expr.fold leaf branch with
  | error failure => rfl
  | ok result =>
      simp only [walkTasks]
      rfl

theorem Expr.walk_eq_fold (leaf : Leaf → Except ε α)
    (branch : Head → Expr → Expr → α → α → Except ε α) (expr : Expr) :
    expr.walk leaf branch = (expr.fold leaf branch).mapError .step := by
  rw [Expr.walk, walkTasks_visit_single]
  cases expr.fold leaf branch <;> rfl

/-- Only the steps of a walk can fail, so its own failure never shows. -/
theorem Expr.walk_ofWalk (leaf : Leaf → Except Failure α)
    (branch : Head → Expr → Expr → α → α → Except Failure α) (expr : Expr) :
    (expr.walk leaf branch).mapError Failure.ofWalk = expr.fold leaf branch := by
  rw [Expr.walk_eq_fold]
  cases expr.fold leaf branch <;> rfl

theorem Expr.valueUnder_eq_fold (meaning : Meaning) (expr : Expr) :
    expr.valueUnder meaning =
      expr.fold Leaf.value fun head _ _ x y => head.applyUnder meaning x y :=
  Expr.walk_ofWalk _ _ expr

theorem Expr.textWith_eq_fold (print : Float → String) (expr : Expr) :
    expr.textWith print =
      expr.fold (Leaf.textWith print) fun head left right x y =>
        .ok (joinedText head left right x y) :=
  Expr.walk_ofWalk _ _ expr

theorem Expr.valueUnder_leaf (meaning : Meaning) (leaf : Leaf) :
    (Expr.leaf leaf).valueUnder meaning = leaf.value := by
  rw [Expr.valueUnder_eq_fold, Expr.fold]

/-- The left operand is evaluated first, then the right one. -/
theorem Expr.valueUnder_apply (meaning : Meaning) (head : Head) (left right : Expr) :
    (Expr.apply head left right).valueUnder meaning = (do
      let x ← left.valueUnder meaning
      let y ← right.valueUnder meaning
      head.applyUnder meaning x y) := by
  simp only [Expr.valueUnder_eq_fold, Expr.fold]

theorem valueUnder_apply_of_values {meaning : Meaning} {left right : Expr} {x y : Float}
    (head : Head) (hleft : left.valueUnder meaning = .ok (some x))
    (hright : right.valueUnder meaning = .ok (some y)) :
    (Expr.apply head left right).valueUnder meaning =
      .ok (some (meaning head x y)) := by
  rw [Expr.valueUnder_apply, hleft, hright]
  cases head <;> rfl

theorem Expr.textWith_leaf (print : Float → String) (leaf : Leaf) :
    (Expr.leaf leaf).textWith print = leaf.textWith print := by
  rw [Expr.textWith_eq_fold, Expr.fold]

theorem Expr.textWith_apply (print : Float → String) (head : Head) (left right : Expr) :
    (Expr.apply head left right).textWith print = (do
      let leftText ← left.textWith print
      let rightText ← right.textWith print
      .ok (joinedText head left right leftText rightText)) := by
  simp only [Expr.textWith_eq_fold, Expr.fold]

end InfixCalc
