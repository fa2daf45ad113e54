import InfixCalc.Expr.Basic

/-!
# The grammar of expressions

The grammar says which rows of tokens are expressions and which expression each of
them is.  Precedence is a level: an operator joins operands of its own level or
above, and the next level up on the side it does not associate to.  Only a call may
hold a second expression, and nothing stands between its two arguments.

The lenient grammar has one more form of call.  A third argument may break off
behind an operator, and its operators then take the operand in front of them, the
first of them taking the second argument.
-/

namespace InfixCalc

/-- What a token stands for in an expression. -/
inductive Role
  | operand (expr : Expr)
  | function (fn : Fn)
  | operator (op : Op)
  | opening
  | closing

def Token.role? (token : Token) : Option Role :=
  match token.kind with
  | .number => some (.operand (.number token.value))
  | .constant => some (.operand (.constant token.text token.value))
  | .function => (Fn.ofName? token.text).map .function
  | .operator _ => (Op.ofText? token.text).map .operator
  | .openParen => some .opening
  | .closeParen => some .closing

theorem Token.exists_role {token : Token} (hformed : token.isWellFormed = true) :
    ∃ role, token.role? = some role := by
  unfold Token.isWellFormed at hformed
  unfold Token.role?
  split at hformed <;> rename_i hkind <;> simp only [hkind]
  · obtain ⟨op, hop⟩ := Option.isSome_iff_exists.mp hformed
    exact ⟨.operator op, by rw [hop, Option.map_some]⟩
  · obtain ⟨fn, hfn⟩ := Option.isSome_iff_exists.mp hformed
    exact ⟨.function fn, by rw [hfn, Option.map_some]⟩
  all_goals exact ⟨_, rfl⟩

def Role.startsOperand : Role → Bool
  | .operand _ | .function _ | .opening => true
  | _ => false

def Role.endsOperand : Role → Bool
  | .operand _ | .closing => true
  | _ => false

def Role.isOperator : Role → Bool
  | .operator _ => true
  | _ => false

/-- The kind of a token decides the form of its role. -/
theorem Token.kind_of_role {token : Token} {role : Role}
    (hrole : token.role? = some role) :
    match role with
    | .operand expr =>
      token.kind = .number ∧ expr = .number token.value ∨
        token.kind = .constant ∧ expr = .constant token.text token.value
    | .function fn => token.kind = .function ∧ Fn.ofName? token.text = some fn
    | .operator op =>
        ∃ label, token.kind = .operator label ∧ Op.ofText? token.text = some op
    | .opening => token.kind = .openParen
    | .closing => token.kind = .closeParen := by
  unfold Token.role? at hrole
  split at hrole <;> rename_i hkind
  · cases hrole; exact .inl ⟨hkind, rfl⟩
  · cases hrole; exact .inr ⟨hkind, rfl⟩
  · obtain ⟨fn, hfn, rfl⟩ := Option.map_eq_some_iff.mp hrole
    exact ⟨hkind, hfn⟩
  · obtain ⟨op, hop, rfl⟩ := Option.map_eq_some_iff.mp hrole
    exact ⟨_, hkind, hop⟩
  · cases hrole; exact hkind
  · cases hrole; exact hkind

/-- What is known of each kind alike is known of the role. -/
theorem Token.known_of_role {token : Token} {role : Role}
    (hrole : token.role? = some role) {α : Type} {ofKind : Kind → α} {ofRole : Role → α}
    (hnumber : ∀ expr, ofKind .number = ofRole (.operand expr))
    (hconstant : ∀ expr, ofKind .constant = ofRole (.operand expr))
    (hfunction : ∀ fn, ofKind .function = ofRole (.function fn))
    (hoperator : ∀ label op, ofKind (.operator label) = ofRole (.operator op))
    (hopening : ofKind .openParen = ofRole .opening)
    (hclosing : ofKind .closeParen = ofRole .closing) :
    ofKind token.kind = ofRole role := by
  have hkind := Token.kind_of_role hrole
  cases role with
  | operand expr =>
      rcases hkind with ⟨hkind, -⟩ | ⟨hkind, -⟩
      · rw [hkind, hnumber]
      · rw [hkind, hconstant]
  | function fn => rw [hkind.1, hfunction]
  | operator op =>
      obtain ⟨label, hkind, -⟩ := hkind
      rw [hkind, hoperator]
  | opening => rw [hkind, hopening]
  | closing => rw [hkind, hclosing]

theorem Token.startsOperand_of_role {token : Token} {role : Role}
    (hrole : token.role? = some role) : token.kind.startsOperand = role.startsOperand :=
  known_of_role hrole (fun _ => rfl) (fun _ => rfl) (fun _ => rfl)
    (fun _ _ => rfl) rfl rfl

theorem Token.endsOperand_of_role {token : Token} {role : Role}
    (hrole : token.role? = some role) : token.kind.endsOperand = role.endsOperand :=
  known_of_role hrole (fun _ => rfl) (fun _ => rfl) (fun _ => rfl)
    (fun _ _ => rfl) rfl rfl

theorem Token.isOperator_of_role {token : Token} {role : Role}
    (hrole : token.role? = some role) : token.kind.isOperator = role.isOperator :=
  known_of_role hrole (fun _ => rfl) (fun _ => rfl) (fun _ => rfl)
    (fun _ _ => rfl) rfl rfl

/-! ## Levels -/

/-- The level of whole expressions. -/
def exprLevel : Nat := 2

/-- The level of what holds together without operators. -/
def operandLevel : Nat := 5

/-- The level of sums and differences, of products and quotients, and of powers. -/
def Op.level : Op → Nat
  | .add | .sub => 2
  | .mul | .div => 3
  | .pow => 4

/-- The least level of a left operand.  Only powers do not associate to the left. -/
def Op.leftLevel : Op → Nat
  | .add | .sub => 2
  | .mul | .div => 3
  | .pow => 5

/-- The least level of a right operand. -/
def Op.rightLevel : Op → Nat
  | .add | .sub => 3
  | .mul | .div => 4
  | .pow => 4

/-- The reader's tables say what the levels say. -/
theorem Op.tables_of_level (op : Op) :
    op.precedence = op.level ∧ (op.associativity = .left ↔ op.leftLevel = op.level) ∧
      (op.associativity = .right ↔ op.rightLevel = op.level) := by
  cases op <;> decide

theorem Op.leftFirst_iff (left right : Op) :
    left.leftFirst right = true ↔ right.leftLevel ≤ left.level := by
  cases left <;> cases right <;> decide

/-- Operators of one precedence associate to one side, so an operator that does not
take the operand between leaves it to one that may stand on its right. -/
theorem Op.leftFirst_eq_false_iff (left right : Op) :
    left.leftFirst right = false ↔ left.rightLevel ≤ right.level := by
  cases left <;> cases right <;> decide

theorem Op.exprLevel_le_level (op : Op) : exprLevel ≤ op.level := by
  cases op <;> decide

theorem Op.level_le_leftLevel (op : Op) : op.level ≤ op.leftLevel := by
  cases op <;> decide

theorem Op.level_le_rightLevel (op : Op) : op.level ≤ op.rightLevel := by
  cases op <;> decide

theorem Op.rightLevel_le_operandLevel (op : Op) : op.rightLevel ≤ operandLevel := by
  cases op <;> decide

theorem Op.leftLevel_le_operandLevel (op : Op) : op.leftLevel ≤ operandLevel := by
  cases op <;> decide

/-! ## Derivations -/

inductive Phrase
  /-- An expression whose operators outside parentheses have at least this
  precedence. -/
  | complete (level : Nat) (expr : Expr)
  /-- An expression that breaks off behind an operator.  With `given` in front of it,
  its operators make `result` of its operands. -/
  | lacking (level : Nat) (given result : Expr)

/-- The grammar by levels of precedence.  Only the lenient one lets the third argument
of a call break off. -/
inductive Derives (lenient : Bool) : Phrase → List Token → Prop
  | operand {token : Token} {expr : Expr}
      (hrole : token.role? = some (.operand expr)) :
      Derives lenient (.complete operandLevel expr) [token]
  | group {opening closing : Token} {tokens : List Token} {expr : Expr}
      (hopening : opening.role? = some .opening)
      (hclosing : closing.role? = some .closing)
      (hinside : Derives lenient (.complete exprLevel expr) tokens) :
      Derives lenient (.complete operandLevel expr) (opening :: (tokens ++ [closing]))
  | call {function opening closing : Token} {fn : Fn} {firsts seconds : List Token}
      {first second : Expr}
      (hfunction : function.role? = some (.function fn))
      (hopening : opening.role? = some .opening)
      (hclosing : closing.role? = some .closing)
      (hfirst : Derives lenient (.complete exprLevel first) firsts)
      (hsecond : Derives lenient (.complete exprLevel second) seconds) :
      Derives lenient (.complete operandLevel (.apply (.function fn) first second))
        (function :: opening :: (firsts ++ (seconds ++ [closing])))
  | lower {level : Nat} {expr : Expr} {tokens : List Token}
      (habove : Derives lenient (.complete (level + 1) expr) tokens) :
      Derives lenient (.complete level expr) tokens
  | operation {op : Op} {token : Token} {lefts rights : List Token} {left right : Expr}
      (hoperator : token.role? = some (.operator op))
      (hleft : Derives lenient (.complete op.leftLevel left) lefts)
      (hright : Derives lenient (.complete op.rightLevel right) rights) :
      Derives lenient (.complete op.level (.apply (.operator op) left right))
        (lefts ++ token :: rights)
  | lackingCall {function opening closing : Token} {fn : Fn}
      {firsts seconds thirds : List Token} {first second result : Expr}
      (hlenient : lenient = true)
      (hfunction : function.role? = some (.function fn))
      (hopening : opening.role? = some .opening)
      (hclosing : closing.role? = some .closing)
      (hfirst : Derives lenient (.complete exprLevel first) firsts)
      (hsecond : Derives lenient (.complete exprLevel second) seconds)
      (hthird : Derives lenient (.lacking exprLevel second result) thirds) :
      Derives lenient (.complete operandLevel (.apply (.function fn) first result))
        (function :: opening :: (firsts ++ (seconds ++ (thirds ++ [closing]))))
  | lastOperator {level : Nat} {op : Op} {token : Token} {tokens : List Token}
      {given expr : Expr}
      (hoperator : token.role? = some (.operator op)) (hlevel : level ≤ op.level)
      (hoperand : Derives lenient (.complete op.leftLevel expr) tokens) :
      Derives lenient (.lacking level given (.apply (.operator op) given expr))
        (tokens ++ [token])
  | furtherOperator {level : Nat} {op : Op} {token : Token} {lefts rights : List Token}
      {given expr result : Expr}
      (hoperator : token.role? = some (.operator op)) (hlevel : level ≤ op.level)
      (hoperand : Derives lenient (.complete op.leftLevel expr) lefts)
      (hrest : Derives lenient (.lacking op.rightLevel expr result) rights) :
      Derives lenient (.lacking level given (.apply (.operator op) given result))
        (lefts ++ token :: rights)

/-- The grammar reads the tokens as the expression. -/
def Reads (tokens : List Token) (expr : Expr) : Prop :=
  Derives false (.complete exprLevel expr) tokens

/-- The lenient grammar reads the tokens as the expression. -/
def ReadsLeniently (tokens : List Token) (expr : Expr) : Prop :=
  Derives true (.complete exprLevel expr) tokens

theorem Derives.weaken {lenient : Bool} {level above : Nat} {expr : Expr}
    {tokens : List Token} (hlevel : level ≤ above)
    (hderives : Derives lenient (.complete above expr) tokens) :
    Derives lenient (.complete level expr) tokens := by
  induction hlevel with
  | refl => exact hderives
  | step _ ih => exact ih hderives.lower

theorem Derives.lenient_of_strict {phrase : Phrase} {tokens : List Token}
    (hderives : Derives false phrase tokens) : Derives true phrase tokens := by
  induction hderives with
  | operand hrole => exact .operand hrole
  | group hopening hclosing _ ih => exact .group hopening hclosing ih
  | call hfunction hopening hclosing _ _ ihfirst ihsecond =>
      exact .call hfunction hopening hclosing ihfirst ihsecond
  | lower _ ih => exact .lower ih
  | operation hoperator _ _ ihleft ihright => exact .operation hoperator ihleft ihright
  | lackingCall hlenient => exact absurd hlenient Bool.false_ne_true
  | lastOperator hoperator hlevel _ ih => exact .lastOperator hoperator hlevel ih
  | furtherOperator hoperator hlevel _ _ ihoperand ihrest =>
      exact .furtherOperator hoperator hlevel ihoperand ihrest

/-- A phrase begins with a token that can begin an operand. -/
theorem Derives.exists_first {lenient : Bool} {phrase : Phrase} {tokens : List Token}
    (hderives : Derives lenient phrase tokens) :
    ∃ first rest role, tokens = first :: rest ∧ first.role? = some role ∧
      role.startsOperand = true := by
  induction hderives with
  | operand hrole => exact ⟨_, _, _, rfl, hrole, rfl⟩
  | group hopening => exact ⟨_, _, _, rfl, hopening, rfl⟩
  | call hfunction => exact ⟨_, _, _, rfl, hfunction, rfl⟩
  | lower _ ih => exact ih
  | lackingCall _ hfunction => exact ⟨_, _, _, rfl, hfunction, rfl⟩
  | operation _ _ _ ih | lastOperator _ _ _ ih | furtherOperator _ _ _ _ ih =>
      obtain ⟨first, rest, role, rfl, hrole, hstarts⟩ := ih
      exact ⟨first, _, role, rfl, hrole, hstarts⟩

end InfixCalc
