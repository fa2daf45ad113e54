import Mathlib
import InfixCalc.Expr.Reading
import InfixCalc.Proofs.Walk

/-!
# Folding and building agree

A reader that folds and a reader that builds go through the same operations.  At any
time they wait for the same entries, and every operand of the first is a leaf that
stands for the value of the operand of the second.  So every operation succeeds on
both sides or fails with the same failure, whatever operators and functions compute.
The foldings made so far are the nodes of the operands that have been built, in the
order in which a walk joins them.
-/

namespace InfixCalc

variable {meaning : Meaning}

/-- A leaf with the value of an expression, and the same leaf where that is one. -/
inductive StandsFor (meaning : Meaning) : Expr → Expr → Prop
  | number (value : Float) :
      StandsFor meaning (.number (some value)) (.number (some value))
  | constant (name : String) (value : Float) :
      StandsFor meaning (.constant name (some value)) (.constant name (some value))
  | folded {head : Head} {left right : Expr} {value : Float}
      (hvalue : (Expr.apply head left right).valueUnder meaning = .ok (some value)) :
      StandsFor meaning (.number (some value)) (.apply head left right)

theorem StandsFor.exists_value {leaf expr : Expr}
    (hstands : StandsFor meaning leaf expr) :
    ∃ value, leaf.valueUnder meaning = .ok (some value) ∧
      expr.valueUnder meaning = .ok (some value) := by
  cases hstands with
  | number value => exact ⟨value, Expr.valueUnder_leaf _ _, Expr.valueUnder_leaf _ _⟩
  | constant name value =>
      exact ⟨value, Expr.valueUnder_leaf _ _, Expr.valueUnder_leaf _ _⟩
  | folded hvalue => exact ⟨_, Expr.valueUnder_leaf _ _, hvalue⟩

/-- A leaf that stands for a tree is determined by the tree. -/
theorem StandsFor.unique {leaf other expr : Expr}
    (hleaf : StandsFor meaning leaf expr) (hother : StandsFor meaning other expr) :
    leaf = other := by
  cases hleaf with
  | number value => cases hother; rfl
  | constant name value => cases hother; rfl
  | folded hvalue =>
      cases hother with
      | folded hsame =>
          rw [hvalue] at hsame
          cases hsame
          rfl

theorem StandsFor.shape {leaf expr : Expr} {value : Float}
    (hstands : StandsFor meaning leaf expr)
    (hvalue : leaf.valueUnder meaning = .ok (some value)) :
    leaf = .number (some value) ∨ ∃ name, leaf = .constant name (some value) := by
  cases hstands with
  | number known | folded =>
      rw [Expr.valueUnder_leaf] at hvalue
      cases hvalue
      exact .inl rfl
  | constant name known =>
      rw [Expr.valueUnder_leaf] at hvalue
      cases hvalue
      exact .inr ⟨name, rfl⟩

/-! ## Nodes and their foldings -/

/-- The inner nodes, those of the left operand first, then those of the right one, and
then the node itself. -/
def Expr.innerNodes : Expr → List Expr
  | .leaf _ => []
  | .apply head left right =>
    left.innerNodes ++ (right.innerNodes ++ [.apply head left right])

/-- A folding shows a node: what it applies, the leaves that stand for its two operands,
and its value. -/
inductive Folding.Records (meaning : Meaning) : Folding → Expr → Prop
  | node {head : Head} {first second left right : Expr} {result : Value}
      (hleft : StandsFor meaning first left) (hright : StandsFor meaning second right)
      (hresult : (Expr.apply head left right).valueUnder meaning = .ok result) :
      Records meaning ⟨head, first, second, result⟩ (.apply head left right)

/-! ## Related results -/

/-- Each folded operand stands for a built one, and the foldings show the nodes of the
built ones, of which the earliest come first. -/
structure OperandsAgree (meaning : Meaning) (folded built : Operands) : Prop where
  values : List.Forall₂ (StandsFor meaning) folded.values built.values
  foldings : List.Forall₂ (Folding.Records meaning) folded.foldings.reverse
    (built.values.reverse.flatMap Expr.innerNodes)

theorem OperandsAgree.length_eq {folded built : Operands}
    (hagree : OperandsAgree meaning folded built) :
    folded.values.length = built.values.length :=
  hagree.values.length_eq

theorem operandsAgree_empty : OperandsAgree meaning ⟨[], []⟩ ⟨[], []⟩ :=
  ⟨.nil, .nil⟩

structure StacksAgree (meaning : Meaning) (folded built : Stacks) : Prop where
  operands : OperandsAgree meaning folded.operands built.operands
  pending : folded.pending = built.pending

inductive ResultsAgree (meaning : Meaning) :
    Except Failure Operands → Except Failure Operands → Prop
  | ok {folded built : Operands} (hagree : OperandsAgree meaning folded built) :
      ResultsAgree meaning (.ok folded) (.ok built)
  | error (failure : Failure) : ResultsAgree meaning (.error failure) (.error failure)

theorem ResultsAgree.cases {folded built : Except Failure Operands}
    (hagree : ResultsAgree meaning folded built) :
    (∃ failure, folded = .error failure ∧ built = .error failure) ∨
      ∃ reduced kept, folded = .ok reduced ∧ built = .ok kept ∧
        OperandsAgree meaning reduced kept := by
  cases hagree with
  | ok hoperands => exact .inr ⟨_, _, rfl, rfl, hoperands⟩
  | error failure => exact .inl ⟨failure, rfl, rfl⟩

inductive OutcomesAgree (meaning : Meaning) : Outcome → Outcome → Prop
  | done {folded built : Stacks} (hagree : StacksAgree meaning folded built) :
      OutcomesAgree meaning (.done folded) (.done built)
  | failed (failure : Failure) (folded built : Stacks) :
      OutcomesAgree meaning (.failed failure folded) (.failed failure built)

theorem OutcomesAgree.andThen {folded built : Outcome}
    {nextFolded nextBuilt : Stacks → Outcome}
    (hagree : OutcomesAgree meaning folded built)
    (hnext : ∀ folded built, StacksAgree meaning folded built →
      OutcomesAgree meaning (nextFolded folded) (nextBuilt built)) :
    OutcomesAgree meaning (folded.andThen nextFolded) (built.andThen nextBuilt) := by
  cases hagree with
  | done hstacks => exact hnext _ _ hstacks
  | failed failure => exact .failed failure _ _

/-! ## Reductions -/

theorem replaceTop_agree (head : Head) {folded built : Operands}
    (hagree : OperandsAgree meaning folded built) :
    ResultsAgree meaning (folded.replaceTop (.folding meaning) head)
      (built.replaceTop .building head) := by
  obtain ⟨values, foldings⟩ := folded
  obtain ⟨builtValues, builtFoldings⟩ := built
  obtain ⟨hvalues, hfoldings⟩ := hagree
  cases hvalues with
  | nil => exact .error _
  | cons hright hrest =>
      cases hrest with
      | nil => exact .error _
      | cons hleft hbelow =>
          obtain ⟨x, hx, hbuiltx⟩ := hleft.exists_value
          obtain ⟨y, hy, hbuilty⟩ := hright.exists_value
          have hvalue := valueUnder_apply_of_values head hx hy
          have hjoined := valueUnder_apply_of_values head hbuiltx hbuilty
          simp only [Operands.replaceTop, hvalue]
          refine .ok ⟨.cons (.folded hjoined) hbelow, ?_⟩
          -- The nodes of both operands have been recorded, and the new
          -- one comes behind them.
          simp only [List.reverse_cons, List.flatMap_append, List.flatMap_singleton,
            List.append_assoc] at hfoldings ⊢
          have hnode :=
            List.rel_append hfoldings (.cons (.node hleft hright hjoined) .nil)
          simpa only [Expr.innerNodes, List.append_assoc] using hnode

/-- Operands that stand for values are never the reason why nothing is joined. -/
theorem refusal_agree {folded built : Operands}
    (hagree : OperandsAgree meaning folded built) :
    folded.refusal (.folding meaning) = built.refusal .building := by
  obtain ⟨values, foldings⟩ := folded
  obtain ⟨builtValues, builtFoldings⟩ := built
  obtain ⟨hvalues, -⟩ := hagree
  cases hvalues with
  | nil => rfl
  | cons hright hrest =>
      cases hrest with
      | nil => rfl
      | cons hleft hbelow =>
          obtain ⟨x, hx, -⟩ := hleft.exists_value
          obtain ⟨y, hy, -⟩ := hright.exists_value
          simp only [Operands.refusal, hx, hy]

theorem reduceBy_agree (token : Token) (floor : Nat) {folded built : Operands}
    (hagree : OperandsAgree meaning folded built) :
    ResultsAgree meaning (folded.reduceBy (.folding meaning) token floor)
      (built.reduceBy .building token floor) := by
  simp only [Operands.reduceBy, hagree.length_eq]
  split
  · exact .error _
  · cases token.operator with
    | error failure => exact .error failure
    | ok operator =>
        cases operator with
        | none =>
            simp only [refusal_agree hagree]
            exact .error _
        | some op => exact replaceTop_agree (.operator op) hagree

theorem reduceWhile_agree (yields : Token → Except Failure Bool)
    (pending : List Pending) {folded built : Operands}
    (hagree : OperandsAgree meaning folded built) :
    OutcomesAgree meaning (reduceWhile (.folding meaning) yields pending folded)
      (reduceWhile .building yields pending built) := by
  induction pending generalizing folded built with
  | nil => exact .done ⟨hagree, rfl⟩
  | cons entry rest ih =>
      cases entry with
      | group group => exact .done ⟨hagree, rfl⟩
      | token token =>
          simp only [reduceWhile]
          cases yields token with
          | error failure => exact .failed failure _ _
          | ok yielded =>
              cases yielded with
              | false => exact .done ⟨hagree, rfl⟩
              | true =>
                  rcases (reduceBy_agree token (floor rest) hagree).cases with
                    ⟨failure, hfolded, hbuilt⟩ |
                      ⟨reduced, kept, hfolded, hbuilt, hreduced⟩
                  · simp only [hfolded, hbuilt]
                    exact .failed failure _ _
                  · simp only [hfolded, hbuilt]
                    exact ih hreduced

theorem reduceGroup_agree {folded built : Stacks}
    (hagree : StacksAgree meaning folded built) :
    OutcomesAgree meaning (folded.reduceGroup (.folding meaning))
      (built.reduceGroup .building) := by
  rw [Stacks.reduceGroup, hagree.pending]
  exact reduceWhile_agree _ _ hagree.operands

theorem reduceBefore_agree (incoming : Token) {folded built : Stacks}
    (hagree : StacksAgree meaning folded built) :
    OutcomesAgree meaning (folded.reduceBefore (.folding meaning) incoming)
      (built.reduceBefore .building incoming) := by
  rw [Stacks.reduceBefore, hagree.pending]
  exact reduceWhile_agree _ _ hagree.operands

/-! ## Groups and tokens -/

theorem closePlain_agree (group : Group) {folded built : Stacks}
    (hagree : StacksAgree meaning folded built) :
    OutcomesAgree meaning (folded.closePlain group) (built.closePlain group) := by
  simp only [Stacks.closePlain, hagree.operands.length_eq]
  split
  · exact .failed _ _ _
  · exact .done hagree
  · exact .failed _ _ _

theorem closeCall_agree (group : Group) {folded built : Stacks}
    (hagree : StacksAgree meaning folded built) :
    OutcomesAgree meaning (folded.closeCall (.folding meaning) group)
      (built.closeCall .building group) := by
  obtain ⟨operands, pending⟩ := folded
  obtain ⟨builtOperands, builtPending⟩ := built
  obtain ⟨hoperands, hpending⟩ := hagree
  cases hpending
  match pending with
  | [] => exact .failed _ _ _
  | .group other :: rest => exact .failed _ _ _
  | .token token :: rest =>
      simp only [Stacks.closeCall, hoperands.length_eq]
      cases Fn.ofName? token.text with
      | none => exact .failed _ _ _
      | some fn =>
          simp only
          split
          · rcases (replaceTop_agree (.function fn) hoperands).cases with
              ⟨failure, hfolded, hbuilt⟩ | ⟨reduced, kept, hfolded, hbuilt, hreduced⟩
            · simp only [hfolded, hbuilt]
              exact .failed failure _ _
            · simp only [hfolded, hbuilt]
              exact .done ⟨hreduced, rfl⟩
          · exact .failed _ _ _

theorem closeGroup_agree (position : Int) {folded built : Stacks}
    (hagree : StacksAgree meaning folded built) :
    OutcomesAgree meaning (folded.closeGroup (.folding meaning) position)
      (built.closeGroup .building position) := by
  refine (reduceGroup_agree hagree).andThen fun folded built hreduced => ?_
  obtain ⟨operands, pending⟩ := folded
  obtain ⟨builtOperands, builtPending⟩ := built
  obtain ⟨hoperands, hpending⟩ := hreduced
  cases hpending
  match pending with
  | [] => exact .failed _ _ _
  | .token token :: rest => exact .failed _ _ _
  | .group group :: rest =>
      simp only
      split
      · exact closeCall_agree group ⟨hoperands, rfl⟩
      · exact closePlain_agree group ⟨hoperands, rfl⟩

theorem separateOperands_agree (previous : Option Token) (token : Token)
    {folded built : Stacks} (hagree : StacksAgree meaning folded built) :
    OutcomesAgree meaning (separateOperands (.folding meaning) previous token folded)
      (separateOperands .building previous token built) := by
  simp only [separateOperands, hagree.pending]
  split
  · split
    · exact reduceGroup_agree hagree
    · exact .failed _ _ _
  · exact .done hagree

/-- A leaf has no node, so nothing has to be recorded of it. -/
theorem pushValue_agree {leaf : Leaf}
    (hstands : StandsFor meaning (.leaf leaf) (.leaf leaf)) {folded built : Stacks}
    (hagree : StacksAgree meaning folded built) :
    StacksAgree meaning (folded.pushValue (.leaf leaf))
      (built.pushValue (.leaf leaf)) := by
  refine ⟨⟨.cons hstands hagree.operands.values, ?_⟩, hagree.pending⟩
  simpa only [Stacks.pushValue, List.reverse_cons, List.flatMap_append,
    List.flatMap_singleton, Expr.innerNodes, List.append_nil]
    using hagree.operands.foldings

theorem pushToken_agree (token : Token) {folded built : Stacks}
    (hagree : StacksAgree meaning folded built) :
    StacksAgree meaning (folded.pushToken token) (built.pushToken token) :=
  ⟨hagree.operands, congrArg (Pending.token token :: ·) hagree.pending⟩

theorem openGroup_agree (position : Int) (call : Bool) {folded built : Stacks}
    (hagree : StacksAgree meaning folded built) :
    StacksAgree meaning (folded.openGroup position call)
      (built.openGroup position call) := by
  refine ⟨hagree.operands, ?_⟩
  simp only [Stacks.openGroup, hagree.operands.length_eq, hagree.pending]

theorem placeToken_agree (previous : Option Token) {token : Token}
    (hformed : token.isWellFormed = true) {folded built : Stacks}
    (hagree : StacksAgree meaning folded built) :
    OutcomesAgree meaning (placeToken (.folding meaning) previous token folded)
      (placeToken .building previous token built) := by
  unfold Token.isWellFormed at hformed
  unfold placeToken
  split <;> rename_i hkind <;> simp only [hkind] at hformed
  · obtain ⟨value, hvalue⟩ := Option.isSome_iff_exists.mp hformed
    rw [hvalue]
    exact .done (pushValue_agree (.number value) hagree)
  · obtain ⟨value, hvalue⟩ := Option.isSome_iff_exists.mp hformed
    rw [hvalue]
    exact .done (pushValue_agree (.constant token.text value) hagree)
  · exact .done (pushToken_agree token hagree)
  · split
    · exact (reduceBefore_agree token hagree).andThen fun _ _ hreduced =>
        .done (pushToken_agree token hreduced)
    · exact .failed _ _ _
  · exact .done (openGroup_agree _ _ hagree)
  · exact closeGroup_agree token.position hagree

theorem readToken_agree (previous : Option Token) {token : Token}
    (hformed : token.isWellFormed = true) {folded built : Stacks}
    (hagree : StacksAgree meaning folded built) :
    OutcomesAgree meaning (readToken (.folding meaning) previous token folded)
      (readToken .building previous token built) := by
  unfold readToken
  split
  · exact .failed _ _ _
  · exact (separateOperands_agree previous token hagree).andThen fun _ _ hseparated =>
      placeToken_agree previous hformed hseparated

/-! ## Readings -/

/-- Two readings fail alike, or the one is a leaf that stands for the other and has
recorded its nodes.  They stop at the same token. -/
structure ReadingsAgree (meaning : Meaning) (folded built : Reading) : Prop where
  unread : folded.unread = built.unread
  result :
    (∃ failure, folded.result = .error failure ∧ built.result = .error failure) ∨
      ∃ leaf expr, folded.result = .ok leaf ∧ built.result = .ok expr ∧
        StandsFor meaning leaf expr
  foldings : ∀ expr, built.result = .ok expr →
    List.Forall₂ (Folding.Records meaning) folded.foldings expr.innerNodes

theorem readingsAgree_error (failure : Failure) (unread : List Token)
    (foldings others : List Folding) :
    ReadingsAgree meaning ⟨.error failure, unread, foldings⟩
      ⟨.error failure, unread, others⟩ :=
  ⟨rfl, .inl ⟨failure, rfl, rfl⟩, nofun⟩

theorem conclude_eq_ok {state : Stacks} {expr : Expr}
    (hresult : conclude state = .ok expr) : state.operands.values = [expr] := by
  unfold conclude at hresult
  split at hresult <;> cases hresult
  assumption

theorem conclude_agree {folded built : Stacks}
    (hagree : StacksAgree meaning folded built) :
    (∃ failure, conclude folded = .error failure ∧ conclude built = .error failure) ∨
      ∃ leaf expr, conclude folded = .ok leaf ∧ conclude built = .ok expr ∧
        StandsFor meaning leaf expr := by
  obtain ⟨⟨values, foldings⟩, pending⟩ := folded
  obtain ⟨⟨builtValues, builtFoldings⟩, builtPending⟩ := built
  obtain ⟨⟨hvalues, -⟩, hpending⟩ := hagree
  cases hpending
  cases hvalues with
  | nil => rcases pending with _ | ⟨token | group, rest⟩ <;> exact .inl ⟨_, rfl, rfl⟩
  | cons hlast hrest =>
      cases hrest with
      | cons =>
          rcases pending with _ | ⟨token | group, rest⟩ <;> exact .inl ⟨_, rfl, rfl⟩
      | nil =>
          rcases pending with _ | ⟨token | group, rest⟩
          · exact .inr ⟨_, _, rfl, rfl, hlast⟩
          · exact .inr ⟨_, _, rfl, rfl, hlast⟩
          · exact .inl ⟨_, rfl, rfl⟩

theorem OutcomesAgree.cases {folded built : Outcome}
    (hagree : OutcomesAgree meaning folded built) :
    (∃ failure foldedState builtState, folded = .failed failure foldedState ∧
      built = .failed failure builtState) ∨
      ∃ foldedState builtState, folded = .done foldedState ∧ built = .done builtState ∧
        StacksAgree meaning foldedState builtState := by
  cases hagree with
  | done hstacks => exact .inr ⟨_, _, rfl, rfl, hstacks⟩
  | failed failure folded built => exact .inl ⟨failure, folded, built, rfl, rfl⟩

theorem finishReading_agree (previous : Option Token) {folded built : Stacks}
    (hagree : StacksAgree meaning folded built) :
    ReadingsAgree meaning (finishReading (.folding meaning) previous folded)
      (finishReading .building previous built) := by
  unfold finishReading
  split
  · exact readingsAgree_error _ _ _ _
  · rcases (reduceGroup_agree hagree).cases with
      ⟨failure, foldedState, builtState, hfolded, hbuilt⟩ |
        ⟨foldedState, builtState, hfolded, hbuilt, hreduced⟩
    · simp only [hfolded, hbuilt]
      exact readingsAgree_error _ _ _ _
    · simp only [hfolded, hbuilt]
      refine ⟨rfl, conclude_agree hreduced, fun expr hresult => ?_⟩
      have hfoldings := hreduced.operands.foldings
      rwa [conclude_eq_ok hresult, List.reverse_singleton,
        List.flatMap_singleton] at hfoldings

theorem readOn_agree {tokens : List Token}
    (hformed : ∀ token ∈ tokens, token.isWellFormed = true) (previous : Option Token)
    {folded built : Stacks} (hagree : StacksAgree meaning folded built) :
    ReadingsAgree meaning (readOn (.folding meaning) previous folded tokens)
      (readOn .building previous built tokens) := by
  induction tokens generalizing previous folded built with
  | nil => exact finishReading_agree previous hagree
  | cons token rest ih =>
      have hrest : ∀ token ∈ rest, token.isWellFormed = true :=
        fun token hmem => hformed token (List.mem_cons_of_mem _ hmem)
      simp only [readOn]
      rcases (readToken_agree previous (hformed token List.mem_cons_self)
        hagree).cases with
        ⟨failure, foldedState, builtState, hfolded, hbuilt⟩ |
          ⟨foldedState, builtState, hfolded, hbuilt, hnext⟩
      · simp only [hfolded, hbuilt]
        exact readingsAgree_error _ _ _ _
      · simp only [hfolded, hbuilt]
        exact ih hrest (some token) hnext

theorem readTokens_agree (meaning : Meaning) {tokens : List Token}
    (hformed : ∀ token ∈ tokens, token.isWellFormed = true) :
    ReadingsAgree meaning (readTokens (.folding meaning) tokens)
      (readTokens .building tokens) :=
  readOn_agree hformed none ⟨operandsAgree_empty, rfl⟩

/-- Folding fails as building does. -/
theorem readTokens_folding_of_error (meaning : Meaning) {tokens : List Token}
    {failure : Failure} (hformed : ∀ token ∈ tokens, token.isWellFormed = true)
    (hresult : (readTokens .building tokens).result = .error failure) :
    (readTokens (.folding meaning) tokens).result = .error failure := by
  rcases (readTokens_agree meaning hformed).result with
    ⟨other, hfolded, hbuilt⟩ | ⟨leaf, tree, -, hbuilt, -⟩
  · rw [hfolded, ← hbuilt, hresult]
  · rw [hbuilt] at hresult
    cases hresult

/-- Whether it folds or builds, the reader fails with the same failure. -/
theorem readTokens_eq_error_iff (mode : Mode) {tokens : List Token} {failure : Failure}
    (hformed : ∀ token ∈ tokens, token.isWellFormed = true) :
    (readTokens mode tokens).result = .error failure ↔
      (readTokens .building tokens).result = .error failure := by
  cases mode with
  | building => exact Iff.rfl
  | folding meaning =>
      refine ⟨fun hresult => ?_, readTokens_folding_of_error meaning hformed⟩
      rcases (readTokens_agree meaning hformed).result with
        ⟨other, hfolded, hbuilt⟩ | ⟨leaf, tree, hfolded, -, -⟩
      · rw [hbuilt, ← hfolded, hresult]
      · rw [hfolded] at hresult
        cases hresult

/-- Whether it folds or builds, the reader stops at the same token. -/
theorem readTokens_unread (mode : Mode) {tokens : List Token}
    (hformed : ∀ token ∈ tokens, token.isWellFormed = true) :
    (readTokens mode tokens).unread = (readTokens .building tokens).unread := by
  cases mode with
  | building => rfl
  | folding meaning => exact (readTokens_agree meaning hformed).unread

/-- Folding gives a leaf that stands for the tree of building. -/
theorem exists_standsFor_of_ok (meaning : Meaning) {tokens : List Token} {tree : Expr}
    (hformed : ∀ token ∈ tokens, token.isWellFormed = true)
    (hresult : (readTokens .building tokens).result = .ok tree) :
    ∃ leaf, (readTokens (.folding meaning) tokens).result = .ok leaf ∧
      StandsFor meaning leaf tree := by
  rcases (readTokens_agree meaning hformed).result with
    ⟨failure, -, hbuilt⟩ | ⟨leaf, other, hfolded, hbuilt, hstands⟩
  · rw [hbuilt] at hresult
    cases hresult
  · rw [hbuilt] at hresult
    cases hresult
    exact ⟨leaf, hfolded, hstands⟩

/-- Whatever operators and functions compute, folding and building stop at the same
token, and either both fail with the same failure, or folding gives a number or a
constant with the value of the tree that building gives. -/
theorem readTokens_folding_agrees_building (meaning : Meaning) {tokens : List Token}
    (hformed : ∀ token ∈ tokens, token.isWellFormed = true) :
    (readTokens (.folding meaning) tokens).unread =
      (readTokens .building tokens).unread ∧
      ((∃ failure, (readTokens (.folding meaning) tokens).result = .error failure ∧
          (readTokens .building tokens).result = .error failure) ∨
        ∃ leaf tree value, (readTokens (.folding meaning) tokens).result = .ok leaf ∧
          (readTokens .building tokens).result = .ok tree ∧
          (leaf = .number (some value) ∨ ∃ name, leaf = .constant name (some value)) ∧
          leaf.valueUnder meaning = .ok (some value) ∧
          tree.valueUnder meaning = .ok (some value)) := by
  obtain ⟨hunread, hresult⟩ := readTokens_agree meaning hformed
  refine ⟨hunread, ?_⟩
  rcases hresult with hfailure | ⟨leaf, tree, hfolded, hbuilt, hstands⟩
  · exact .inl hfailure
  · obtain ⟨value, hleaf, htree⟩ := hstands.exists_value
    have hshape : leaf = .number (some value) ∨
        ∃ name, leaf = .constant name (some value) :=
      hstands.shape hleaf
    exact .inr ⟨leaf, tree, value, hfolded, hbuilt, hshape, hleaf, htree⟩

theorem sum_of_product_folds :
    let tokens : List Token :=
      [⟨.number, "1", 0, some 1⟩, ⟨.operator .add, "+", 2, none⟩,
        ⟨.number, "2", 4, some 2⟩, ⟨.operator .mul, "*", 6, none⟩,
        ⟨.constant, "pi", 8, some 3.14159265359⟩]
    (∀ token ∈ tokens, token.isWellFormed = true) ∧
      ∃ leaf tree value, (readTokens (.folding Head.apply) tokens).result = .ok leaf ∧
        (readTokens .building tokens).result = .ok tree ∧
        leaf.valueUnder Head.apply = .ok (some value) ∧
        tree.valueUnder Head.apply = .ok (some value) := by
  intro tokens
  have hformed : ∀ token ∈ tokens, token.isWellFormed = true := by decide
  refine ⟨hformed, ?_⟩
  rcases (readTokens_folding_agrees_building Head.apply hformed).2 with
    ⟨failure, -, hbuilt⟩ | ⟨leaf, tree, value, hfolded, hbuilt, -, hleaf, htree⟩
  · cases hbuilt
  · exact ⟨leaf, tree, value, hfolded, hbuilt, hleaf, htree⟩

end InfixCalc
