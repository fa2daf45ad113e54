import InfixCalc.Proofs.FoldingAgreement
import InfixCalc.Proofs.Recognition

/-!
# Operators that lack an operand

An operator directly before a closing parenthesis has no right operand.  The reader
notices this by counting the operands of the innermost group, and in a call the
finished arguments are among them.  So behind the second argument of a call the
operators of a third one find operands enough, and the call is accepted with a
second argument nobody wrote.  In every other place the lack is a fault.
-/

namespace InfixCalc

theorem not_operandsClosed_of_pair {before behind : List Token}
    {operator closing : Token} (hoperator : operator.kind.isOperator = true)
    (hclosing : closing.kind = .closeParen) :
    ¬OperandsClosed (before ++ operator :: closing :: behind) := by
  intro hclosed
  exact (List.isChain_append_cons_cons.mp hclosed).2.1 hoperator hclosing

/-- No expression of the grammar has an operator directly before a closing
parenthesis. -/
theorem not_reads_of_pair {before behind : List Token} {operator closing : Token}
    {expr : Expr} (hoperator : operator.kind.isOperator = true)
    (hclosing : closing.kind = .closeParen) :
    ¬Reads (before ++ operator :: closing :: behind) expr := by
  intro hreads
  exact not_operandsClosed_of_pair hoperator hclosing (operandsClosed_of_derives hreads)

theorem readTokens_folding_of_ok {tokens : List Token} {tree : Expr} (meaning : Meaning)
    (hformed : ∀ token ∈ tokens, token.isWellFormed = true)
    (hresult : (readTokens .building tokens).result = .ok tree) :
    ∃ leaf, (readTokens (.folding meaning) tokens).result = .ok leaf := by
  obtain ⟨leaf, hfolded, -⟩ := exists_standsFor_of_ok meaning hformed hresult
  exact ⟨leaf, hfolded⟩

theorem readTokens_ok_of_lenient {tokens : List Token} {tree : Expr} (mode : Mode)
    (hformed : ∀ token ∈ tokens, token.isWellFormed = true)
    (hreads : ReadsLeniently tokens tree) :
    ∃ expr, (readTokens mode tokens).result = .ok expr := by
  have hbuilt := readTokens_ok_of_readsLeniently hreads
  cases mode with
  | building => exact ⟨tree, hbuilt⟩
  | folding meaning => exact readTokens_folding_of_ok meaning hformed hbuilt

theorem readTokens_fault_of_not_lenient {tokens : List Token} (mode : Mode)
    (hformed : ∀ token ∈ tokens, token.isWellFormed = true)
    (hnone : ¬∃ tree, ReadsLeniently tokens tree) :
    ∃ fault, (readTokens mode tokens).result = .error (.fault fault) ∧
      fault.IsParsing := by
  rcases readTokens_ok_or_fault hformed with
    ⟨tree, hresult⟩ | ⟨fault, hresult, hparsing⟩
  · exact absurd ⟨tree, readsLeniently_of_readTokens_ok hformed hresult⟩ hnone
  · cases mode with
    | building => exact ⟨fault, hresult, hparsing⟩
    | folding meaning =>
        exact ⟨fault, readTokens_folding_of_error meaning hformed hresult, hparsing⟩

/-- Tokens with an operator directly before a closing parenthesis are no expression of
the grammar.  Whether it folds or builds, the reader accepts them exactly if they are
one of the lenient grammar, where such an operator ends a third argument of a call, and
it fails otherwise with a fault of how the tokens are put together. -/
theorem readTokens_with_operator_before_closing (mode : Mode)
    {before behind : List Token} {operator closing : Token}
    (hformed : ∀ token ∈ before ++ operator :: closing :: behind,
      token.isWellFormed = true)
    (hoperator : operator.kind.isOperator = true)
    (hclosing : closing.kind = .closeParen) :
    let reading := readTokens mode (before ++ operator :: closing :: behind)
    (¬∃ expr, Reads (before ++ operator :: closing :: behind) expr) ∧
      ((∃ expr, reading.result = .ok expr) ↔
        ∃ tree, ReadsLeniently (before ++ operator :: closing :: behind) tree) ∧
      ((¬∃ tree, ReadsLeniently (before ++ operator :: closing :: behind) tree) →
        ∃ fault, reading.result = .error (.fault fault) ∧ fault.IsParsing) := by
  intro reading
  have hfault := readTokens_fault_of_not_lenient mode hformed
  refine ⟨fun ⟨expr, hreads⟩ => not_reads_of_pair hoperator hclosing hreads,
    ⟨?_, ?_⟩, hfault⟩
  · rintro ⟨expr, hresult⟩
    by_contra hnone
    obtain ⟨fault, hfailed, -⟩ := hfault hnone
    change reading.result = _ at hfailed
    rw [hresult] at hfailed
    cases hfailed
  · rintro ⟨tree, hreads⟩
    exact readTokens_ok_of_lenient mode hformed hreads

theorem min_of_lacking_product_reads_leniently :
    let before : List Token :=
      [⟨.function, "min", 0, none⟩, ⟨.openParen, "(", 3, none⟩,
        ⟨.number, "4", 4, some 4⟩, ⟨.number, "5", 7, some 5⟩,
        ⟨.number, "6", 10, some 6⟩]
    let operator : Token := ⟨.operator .mul, "*", 12, none⟩
    let closing : Token := ⟨.closeParen, ")", 13, none⟩
    let tokens := before ++ [operator, closing]
    (∀ token ∈ tokens, token.isWellFormed = true) ∧ operator.kind.isOperator = true ∧
      closing.kind = .closeParen ∧ (¬∃ expr, Reads tokens expr) ∧
      ∃ tree, ReadsLeniently tokens tree := by
  intro before operator closing tokens
  have hformed : ∀ token ∈ tokens, token.isWellFormed = true := by decide
  have hreading := readTokens_with_operator_before_closing .building hformed rfl rfl
  exact ⟨hformed, rfl, rfl, hreading.1, hreading.2.1.mp ⟨_, rfl⟩⟩

/-- The sum behind the second argument takes that argument as its left operand. -/
theorem max_of_lacking_sum_accepted :
    let tokens : List Token :=
      [⟨.function, "max", 0, none⟩, ⟨.openParen, "(", 3, none⟩,
        ⟨.number, "1", 4, some 1⟩, ⟨.number, "2", 6, some 2⟩, ⟨.number, "3", 8, some 3⟩,
        ⟨.operator .add, "+", 9, none⟩, ⟨.closeParen, ")", 10, none⟩]
    (∀ token ∈ tokens, token.isWellFormed = true) ∧ ¬OperandsClosed tokens ∧
      (readTokens .building tokens).result =
        .ok (.apply (.function .max) (.number (some 1))
          (.apply (.operator .add) (.number (some 2)) (.number (some 3)))) ∧
      ∃ leaf, (readTokens (.folding Head.apply) tokens).result = .ok leaf := by
  intro tokens
  have hformed : ∀ token ∈ tokens, token.isWellFormed = true := by decide
  exact ⟨hformed, by decide, rfl, readTokens_folding_of_ok Head.apply hformed rfl⟩

end InfixCalc
