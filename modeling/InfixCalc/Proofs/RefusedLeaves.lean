import InfixCalc.Proofs.Leaves

/-!
# Refused leaves

A walk ends as the recursive fold does, with one result or with the first step that
fails, and its results never run short.  When an expression is evaluated or written,
only its leaves can be refused: markers and absent operands have neither a value nor a
text.  Then the failure is that of the leftmost leaf that is refused.
-/

namespace InfixCalc

universe u v

variable {ε : Type u} {α : Type v}

/-! ## Folds that fail only at leaves -/

/-- Either there is a refusal and the outcome is this failure, or the outcome is
a good result. -/
def Settles (good : α → Prop) (refusal : Option ε) (outcome : Except ε α) : Prop :=
  match refusal with
  | some failure => outcome = .error failure
  | none => ∃ result, outcome = .ok result ∧ good result

theorem Settles.eq_error_iff {good : α → Prop} {refusal : Option ε}
    {outcome : Except ε α} (hsettles : Settles good refusal outcome) (failure : ε) :
    outcome = .error failure ↔ refusal = some failure := by
  cases refusal with
  | some refused =>
      change outcome = .error refused at hsettles
      rw [hsettles, Except.error.injEq, Option.some.injEq]
  | none =>
      obtain ⟨result, rfl, -⟩ := hsettles
      exact ⟨nofun, nofun⟩

/-- If inner nodes join good results to good ones, the first refusal from the left
decides. -/
theorem Expr.fold_settles {leaf : Leaf → Except ε α}
    {branch : Head → Expr → Expr → α → α → Except ε α} {good : α → Prop}
    {refusal : Leaf → Option ε} {expr : Expr}
    (hleaf : ∀ found ∈ expr.leaves, Settles good (refusal found) (leaf found))
    (hbranch : ∀ head left right first second, good first → good second →
      Settles good none (branch head left right first second)) :
    Settles good (expr.leaves.findSome? refusal) (expr.fold leaf branch) := by
  induction expr with
  | leaf found =>
      rw [Expr.leaves, List.findSome?_singleton]
      exact hleaf found (List.mem_singleton_self found)
  | apply head left right ihleft ihright =>
      obtain ⟨hlefts, hrights⟩ := List.forall_mem_append.mp hleaf
      have hleft := ihleft hlefts
      have hright := ihright hrights
      rw [Expr.leaves, List.findSome?_append, Expr.fold]
      cases hrefused : left.leaves.findSome? refusal with
      | some failure =>
          rw [hrefused] at hleft
          change left.fold leaf branch = .error failure at hleft
          rw [hleft]
          rfl
      | none =>
          rw [hrefused] at hleft
          obtain ⟨first, hfirst, hgoodFirst⟩ := hleft
          rw [hfirst, Option.none_or]
          cases hlater : right.leaves.findSome? refusal with
          | some failure =>
              rw [hlater] at hright
              change right.fold leaf branch = .error failure at hright
              rw [hright]
              rfl
          | none =>
              rw [hlater] at hright
              obtain ⟨second, hsecond, hgoodSecond⟩ := hright
              rw [hsecond]
              exact hbranch head left right first second hgoodFirst hgoodSecond

/-! ## Values and texts -/

/-- Why a leaf has no value. -/
def Leaf.valueRefusal? : Leaf → Option Failure
  | .marker position _ _ => some (.fault (.located position .markerWithoutValue))
  | .absent => some (.defect (.notExpression .absent))
  | .number _ | .constant _ _ => none

/-- Why a leaf cannot be written.  A constant is written by its name and a number
by its value. -/
def Leaf.textRefusal? : Leaf → Option Failure
  | .number none => some (.defect .missingNumber)
  | .number (some _) | .constant _ _ => none
  | leaf => some (.defect (.notWritable leaf))

/-- A number or a constant holds a double. -/
def Leaf.IsFilled : Leaf → Prop
  | .number value | .constant _ value => value.isSome = true
  | .marker _ _ _ | .absent => True

theorem Leaf.value_settles {leaf : Leaf} (hfilled : leaf.IsFilled) :
    Settles (fun value : Value => value.isSome = true) leaf.valueRefusal?
      leaf.value := by
  cases leaf with
  | number value | constant name value => exact ⟨value, rfl, hfilled⟩
  | marker | absent => rfl

theorem Leaf.textWith_settles (print : Float → String) (leaf : Leaf) :
    Settles (fun _ => True) leaf.textRefusal? (leaf.textWith print) := by
  cases leaf with
  | number value => cases value <;> [rfl; exact ⟨_, rfl, trivial⟩]
  | constant name value => exact ⟨name, rfl, trivial⟩
  | marker | absent => rfl

/-- Doubles are always joined to a double. -/
theorem Head.applyUnder_settles (meaning : Meaning) (head : Head) {x y : Value}
    (hx : x.isSome = true) (hy : y.isSome = true) :
    Settles (fun value : Value => value.isSome = true) none
      (head.applyUnder meaning x y) := by
  obtain ⟨first, rfl⟩ := Option.isSome_iff_exists.mp hx
  obtain ⟨second, rfl⟩ := Option.isSome_iff_exists.mp hy
  cases head <;> exact ⟨_, rfl, rfl⟩

theorem Expr.valueUnder_eq_error_iff (meaning : Meaning) {expr : Expr}
    (hfilled : ∀ leaf ∈ expr.leaves, leaf.IsFilled) (failure : Failure) :
    expr.valueUnder meaning = .error failure ↔
      expr.leaves.findSome? Leaf.valueRefusal? = some failure := by
  rw [Expr.valueUnder_eq_fold]
  refine (Expr.fold_settles
    (fun leaf hmem => Leaf.value_settles (hfilled leaf hmem)) ?_).eq_error_iff failure
  exact fun head _ _ _ _ hx hy => Head.applyUnder_settles meaning head hx hy

theorem Expr.textWith_eq_error_iff (print : Float → String) (expr : Expr)
    (failure : Failure) :
    expr.textWith print = .error failure ↔
      expr.leaves.findSome? Leaf.textRefusal? = some failure := by
  rw [Expr.textWith_eq_fold]
  refine (Expr.fold_settles
    (fun leaf _ => leaf.textWith_settles print) ?_).eq_error_iff failure
  exact fun head left right first second _ _ => ⟨_, rfl, trivial⟩

/-- A walk with its tasks and results ends as the fold does: with the fold's result and
nothing else on the results, or with the failure of the first step that fails.  So a
text is missing if and only if a leaf has none, and a value, where the numbers and
constants hold doubles, if and only if a leaf has none; and the failure is that of the
leftmost such leaf. -/
theorem walk_fails_as_fold (leaf : Leaf → Except ε α)
    (branch : Head → Expr → Expr → α → α → Except ε α) (expr : Expr) :
    walkTasks leaf branch [.visit expr] [] =
        ((expr.fold leaf branch).map fun result => [result]).mapError .step ∧
      expr.walk leaf branch = (expr.fold leaf branch).mapError .step ∧
      (∀ failure, expr.text = .error failure ↔
        expr.leaves.findSome? Leaf.textRefusal? = some failure) ∧
      ((∀ leaf ∈ expr.leaves, leaf.IsFilled) → ∀ meaning failure,
        expr.valueUnder meaning = .error failure ↔
          expr.leaves.findSome? Leaf.valueRefusal? = some failure) :=
  ⟨walkTasks_visit_single leaf branch expr, expr.walk_eq_fold leaf branch,
    expr.textWith_eq_error_iff Layout.literal.text,
    fun hfilled meaning failure => Expr.valueUnder_eq_error_iff meaning hfilled failure⟩

/-- The marker is refused before the absent operand on its right, and a function and an
operator stand above both. -/
theorem marker_before_absent_is_refused :
    let expr : Expr := .apply (.function .min) (.constant "pi" (some 3.14))
      (.apply (.operator .sub) (.leaf (.marker 7 2 false)) (.leaf .absent))
    (∀ leaf ∈ expr.leaves, leaf.IsFilled) ∧
      expr.text = .error (.defect (.notWritable (.marker 7 2 false))) ∧
      expr.valueUnder Head.apply =
        .error (.fault (.located 7 .markerWithoutValue)) := by
  intro expr
  have hfilled : ∀ leaf ∈ expr.leaves, leaf.IsFilled := by
    simp [expr, Expr.leaves, Leaf.IsFilled]
  obtain ⟨-, -, htext, hvalue⟩ := walk_fails_as_fold Leaf.value
    (fun head _ _ x y => head.applyUnder Head.apply x y) expr
  exact ⟨hfilled, (htext _).mpr rfl, (hvalue hfilled _ _).mpr rfl⟩

end InfixCalc
