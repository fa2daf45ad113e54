import InfixCalc.Proofs.Conservation
import InfixCalc.Proofs.Recognition

/-!
# Every token has its place in the tree

The tree of an accepted row of tokens is made of these tokens and of nothing else.  Its
leaves are the operands in the order in which they were written, and each operator or
function is one of its inner nodes.  This holds of every row that the reader accepts,
also of those that only the lenient grammar derives.
-/

namespace InfixCalc

/-- An inner node has two operands, so there is one leaf more than there are inner
nodes. -/
theorem Expr.length_leaves (expr : Expr) :
    expr.leaves.length = expr.heads.length + 1 := by
  induction expr with
  | leaf found => rfl
  | apply head left right ihleft ihright =>
      simp only [Expr.leaves, Expr.heads, List.length_append, List.length_cons,
        ihleft, ihright]
      omega

/-! ## What a token adds to the tree -/

/-- The leaf that an operand is: its value, and the name of a constant. -/
def Token.operandLeaf? (token : Token) : Option Leaf :=
  match token.kind with
  | .number => some (.number token.value)
  | .constant => some (.constant token.text token.value)
  | _ => none

def Kind.isOperand : Kind → Bool
  | .number | .constant => true
  | _ => false

/-- Does a token of this kind take two operands? -/
def Kind.takesOperands : Kind → Bool
  | .function | .operator _ => true
  | _ => false

theorem Token.leaf?_eq_operandLeaf? {token : Token}
    (hformed : token.isWellFormed = true) : token.leaf? = token.operandLeaf? := by
  obtain ⟨role, hrole⟩ := Token.exists_role hformed
  rw [Token.leaf_of_role hrole, Token.operandLeaf?]
  have hkind := Token.kind_of_role hrole
  cases role with
  | operand expr =>
      rcases hkind with ⟨hkind, rfl⟩ | ⟨hkind, rfl⟩ <;> simp only [hkind] <;> rfl
  | function fn => simp only [hkind.1]; rfl
  | operator op =>
      obtain ⟨label, hkind, -⟩ := hkind
      simp only [hkind]
      rfl
  | opening => simp only [hkind]; rfl
  | closing => simp only [hkind]; rfl

theorem Token.isSome_leaf? {token : Token} (hformed : token.isWellFormed = true) :
    token.leaf?.isSome = token.kind.isOperand := by
  rw [Token.leaf?_eq_operandLeaf? hformed, Token.operandLeaf?]
  cases token.kind <;> rfl

theorem Token.isSome_head? {token : Token} (hformed : token.isWellFormed = true) :
    token.head?.isSome = token.kind.takesOperands := by
  obtain ⟨role, hrole⟩ := Token.exists_role hformed
  rw [Token.head_of_role hrole]
  exact (@known_of_role token role hrole Bool Kind.takesOperands
    (fun role => role.head?.isSome) (fun _ => rfl) (fun _ => rfl) (fun _ => rfl)
    (fun _ _ => rfl) rfl rfl).symm

theorem Op.ofText?_eq_some_iff {text : String} {op : Op} :
    Op.ofText? text = some op ↔ text = op.text := by
  constructor
  · intro hop
    have hfound := List.find?_some hop
    exact (of_decide_eq_true hfound).symm
  · rintro rfl
    cases op <;> decide

theorem Fn.ofName?_eq_some_iff {name : String} {fn : Fn} :
    Fn.ofName? name = some fn ↔ name = fn.name := by
  constructor
  · intro hfn
    have hfound := List.find?_some hfn
    exact (of_decide_eq_true hfound).symm
  · rintro rfl
    cases fn <;> decide

/-- The text of an operator decides what it means. -/
theorem Token.head?_eq_operator_iff {token : Token} {op : Op} :
    token.head? = some (.operator op) ↔ token.kind.isOperator = true ∧
      token.text = op.text := by
  rw [← Op.ofText?_eq_some_iff]
  obtain ⟨kind, text, position, value⟩ := token
  cases kind with
  | operator label =>
      cases hop : Op.ofText? text <;>
        simp [Token.head?, Token.role?, Role.head?, Kind.isOperator, hop]
  | function =>
      cases hfn : Fn.ofName? text <;>
        simp [Token.head?, Token.role?, Role.head?, Kind.isOperator, hfn]
  | _ => simp [Token.head?, Token.role?, Role.head?, Kind.isOperator]

theorem Token.head?_eq_function_iff {token : Token} {fn : Fn} :
    token.head? = some (.function fn) ↔ token.kind = .function ∧
      token.text = fn.name := by
  rw [← Fn.ofName?_eq_some_iff]
  obtain ⟨kind, text, position, value⟩ := token
  cases kind with
  | operator label =>
      cases hop : Op.ofText? text <;> simp [Token.head?, Token.role?, Role.head?, hop]
  | function =>
      cases hfn : Fn.ofName? text <;> simp [Token.head?, Token.role?, Role.head?, hfn]
  | _ => simp [Token.head?, Token.role?, Role.head?]

/-! ## Counting -/

variable {tokens : List Token} {tree : Expr}

theorem ReadsLeniently.count_heads (hreads : ReadsLeniently tokens tree) (head : Head) :
    tree.heads.count head = tokens.countP fun token => token.head? == some head := by
  rw [hreads.heads_perm.count_eq, List.count_filterMap]

theorem ReadsLeniently.count_operator (hreads : ReadsLeniently tokens tree) (op : Op) :
    tree.heads.count (.operator op) =
      tokens.countP fun token => token.kind.isOperator && token.text = op.text := by
  rw [hreads.count_heads]
  refine List.countP_congr fun token _ => ?_
  simp only [beq_iff_eq, Token.head?_eq_operator_iff, Bool.and_eq_true,
    decide_eq_true_eq]

theorem ReadsLeniently.count_function (hreads : ReadsLeniently tokens tree) (fn : Fn) :
    tree.heads.count (.function fn) =
      tokens.countP fun token => token.kind = .function && token.text = fn.name := by
  rw [hreads.count_heads]
  refine List.countP_congr fun token _ => ?_
  simp only [beq_iff_eq, Token.head?_eq_function_iff, Bool.and_eq_true,
    decide_eq_true_eq]

theorem ReadsLeniently.leaves_eq_operands (hreads : ReadsLeniently tokens tree)
    (hformed : ∀ token ∈ tokens, token.isWellFormed = true) :
    tree.leaves = tokens.filterMap Token.operandLeaf? := by
  rw [hreads.leaves_eq]
  exact List.filterMap_congr fun token hmem =>
    Token.leaf?_eq_operandLeaf? (hformed token hmem)

theorem ReadsLeniently.count_operands (hreads : ReadsLeniently tokens tree)
    (hformed : ∀ token ∈ tokens, token.isWellFormed = true) :
    (tokens.countP fun token => token.kind.isOperand) =
      (tokens.countP fun token => token.kind.takesOperands) + 1 := by
  have hoperands : (tokens.countP fun token => token.kind.isOperand) =
      tree.leaves.length := by
    rw [hreads.leaves_eq, List.length_filterMap_eq_countP]
    refine List.countP_congr fun token hmem => ?_
    rw [Token.isSome_leaf? (hformed token hmem)]
  have htakers : (tokens.countP fun token => token.kind.takesOperands) =
      tree.heads.length := by
    rw [hreads.heads_perm.length_eq, List.length_filterMap_eq_countP]
    refine List.countP_congr fun token hmem => ?_
    rw [Token.isSome_head? (hformed token hmem)]
  rw [hoperands, htakers, Expr.length_leaves]

/-- Nothing is lost, repeated or moved.  The leaves of the tree are the operands in the
order of the tokens, every operator and every function is a node as often as it is a
token, and so there is one operand more than there are operators and functions. -/
theorem tree_holds_every_token (hformed : ∀ token ∈ tokens, token.isWellFormed = true)
    (hresult : (readTokens .building tokens).result = .ok tree) :
    tree.leaves = tokens.filterMap Token.operandLeaf? ∧
      (∀ op : Op, tree.heads.count (.operator op) =
        tokens.countP fun token => token.kind.isOperator && token.text = op.text) ∧
      (∀ fn : Fn, tree.heads.count (.function fn) =
        tokens.countP fun token => token.kind = .function && token.text = fn.name) ∧
      (tokens.countP fun token => token.kind.isOperand) =
        (tokens.countP fun token => token.kind.takesOperands) + 1 := by
  have hreads := readsLeniently_of_readTokens_ok hformed hresult
  exact ⟨hreads.leaves_eq_operands hformed, hreads.count_operator,
    hreads.count_function, hreads.count_operands hformed⟩

/-- The last operand was written in a third argument and still comes last. -/
theorem broken_off_argument_is_counted :
    let tokens : List Token :=
      [⟨.function, "max", 0, none⟩, ⟨.openParen, "(", 3, none⟩,
        ⟨.constant, "pi", 4, some 3.14⟩, ⟨.number, "2", 8, some 2⟩,
        ⟨.number, "3", 10, some 3⟩, ⟨.operator .sub, "+", 11, none⟩,
        ⟨.closeParen, ")", 12, none⟩]
    let tree : Expr := .apply (.function .max) (.constant "pi" (some 3.14))
      (.apply (.operator .add) (.number (some 2)) (.number (some 3)))
    (∀ token ∈ tokens, token.isWellFormed = true) ∧
      (readTokens .building tokens).result = .ok tree ∧
      tree.leaves = tokens.filterMap Token.operandLeaf? ∧
      tree.heads.count (.operator .add) =
        tokens.countP fun token =>
          token.kind.isOperator && token.text = Op.add.text := by
  intro tokens tree
  have hformed : ∀ token ∈ tokens, token.isWellFormed = true := by decide
  have hresult : (readTokens .building tokens).result = .ok tree := rfl
  obtain ⟨hleaves, hoperators, -, -⟩ := tree_holds_every_token hformed hresult
  exact ⟨hformed, hresult, hleaves, hoperators .add⟩

end InfixCalc
