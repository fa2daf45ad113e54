import InfixCalc.Proofs.FoldingAgreement
import InfixCalc.Proofs.NestRuns

/-!
# The foldings of a reading

Operators and functions are applied whenever a token, the end of a group or the
end of the tokens asks for it.  Still the order in which a folding reader applies
them is that of the tree: it folds every node of the tree that the building reader
makes of the same tokens, none of them twice and none before its operands.  The
building reader folds nothing.
-/

namespace InfixCalc

/-! ## The order of the nodes -/

theorem Expr.fold_eq_innerNodes (expr : Expr) :
    (expr.fold (fun _ => .ok []) fun head left right lefts rights =>
        .ok (lefts ++ (rights ++ [.apply head left right])) :
        Except Empty (List Expr)) =
      .ok expr.innerNodes := by
  induction expr with
  | leaf found => rfl
  | apply head left right ihleft ihright =>
      rw [Expr.fold, ihleft, ihright]
      rfl

/-- A walk that collects the nodes it joins finds the inner nodes in their order. -/
theorem Expr.walk_eq_innerNodes (expr : Expr) :
    (expr.walk (fun _ => .ok []) fun head left right lefts rights =>
        .ok (lefts ++ (rights ++ [.apply head left right])) :
      Except (WalkFailure Empty) (List Expr)) = .ok expr.innerNodes := by
  rw [Expr.walk_eq_fold, Expr.fold_eq_innerNodes]
  rfl

/-! ## Foldings -/

variable {tokens : List Token}

theorem foldings_of_building (hformed : ∀ token ∈ tokens, token.isWellFormed = true) :
    (readTokens .building tokens).foldings = [] := by
  rcases Nest.run_or_fault .start hformed with ⟨last, hrun⟩ |
    ⟨consumed, token, rest, nest, role, means, fault, rfl, hrun, hread⟩
  · rw [readTokens_of_run hrun]
  · rw [readTokens_of_fault hrun means hread]

/-- The foldings are the inner nodes of the tree, each with the leaves that stand for
its operands and with its value, and every node comes behind those of its left and of
its right operand. -/
theorem foldings_record_innerNodes (meaning : Meaning) {tree : Expr}
    (hformed : ∀ token ∈ tokens, token.isWellFormed = true)
    (hresult : (readTokens .building tokens).result = .ok tree) :
    List.Forall₂ (Folding.Records meaning)
        (readTokens (.folding meaning) tokens).foldings tree.innerNodes ∧
      (readTokens .building tokens).foldings = [] :=
  ⟨(readTokens_agree meaning hformed).foldings tree hresult,
    foldings_of_building hformed⟩

/-- The product is folded before the difference that was begun earlier, and the
call before both. -/
theorem call_folds_before_product :
    let tokens : List Token :=
      [⟨.constant, "pi", 0, some 3.14⟩, ⟨.operator .sub, "-", 3, none⟩,
        ⟨.function, "max", 5, none⟩, ⟨.openParen, "(", 8, none⟩,
        ⟨.number, "1", 9, some 1⟩, ⟨.number, "2", 11, some 2⟩,
        ⟨.closeParen, ")", 12, none⟩, ⟨.operator .mul, "*", 14, none⟩,
        ⟨.number, "3", 16, some 3⟩]
    let call : Expr := .apply (.function .max) (.number (some 1)) (.number (some 2))
    let product : Expr := .apply (.operator .mul) call (.number (some 3))
    let difference : Expr :=
      .apply (.operator .sub) (.constant "pi" (some 3.14)) product
    (∀ token ∈ tokens, token.isWellFormed = true) ∧
      (readTokens .building tokens).result = .ok difference ∧
      List.Forall₂ (Folding.Records Head.apply)
        (readTokens (.folding Head.apply) tokens).foldings
        [call, product, difference] := by
  intro tokens call product difference
  have hformed : ∀ token ∈ tokens, token.isWellFormed = true := by decide
  have hresult : (readTokens .building tokens).result = .ok difference := rfl
  exact ⟨hformed, hresult, (foldings_record_innerNodes Head.apply hformed hresult).1⟩

end InfixCalc
