import Mathlib
import InfixCalc.Proofs.Grammar
import InfixCalc.Proofs.Leaves

/-!
# What a derivation conserves

An operator or a function takes two operands and leaves one.  So the tokens of an
expression have exactly one operand more than operators and functions, however they are
nested.  None of them is lost: the operands are the leaves of the expression in the same
order, and the operators and functions are its inner nodes.
-/

namespace InfixCalc

/-- What a token adds to the operands that are left over. -/
def Kind.surplus : Kind → Int
  | .number | .constant => 1
  | .function | .operator _ => -1
  | .openParen | .closeParen => 0

/-- The operands that are left over when operators and functions have taken theirs. -/
def surplus (tokens : List Token) : Int :=
  (tokens.map fun token => token.kind.surplus).sum

@[simp]
theorem surplus_nil : surplus [] = 0 := rfl

@[simp]
theorem surplus_cons (token : Token) (tokens : List Token) :
    surplus (token :: tokens) = token.kind.surplus + surplus tokens :=
  List.sum_cons

@[simp]
theorem surplus_append (tokens others : List Token) :
    surplus (tokens ++ others) = surplus tokens + surplus others := by
  rw [surplus, List.map_append, List.sum_append, surplus, surplus]

/-- What a role adds to the operands that are left over. -/
def Role.surplus : Role → Int
  | .operand _ => 1
  | .function _ | .operator _ => -1
  | .opening | .closing => 0

theorem Token.surplus_of_role {token : Token} {role : Role}
    (hrole : token.role? = some role) : token.kind.surplus = role.surplus :=
  known_of_role hrole (fun _ => rfl) (fun _ => rfl) (fun _ => rfl)
    (fun _ _ => rfl) rfl rfl

/-- The operands that are left over from a phrase.  One that breaks off needs all of its
own, since the operand in front of it is not counted. -/
def Phrase.surplus : Phrase → Int
  | .complete _ _ => 1
  | .lacking _ _ _ => 0

theorem Derives.surplus_eq {lenient : Bool} {phrase : Phrase} {tokens : List Token}
    (hderives : Derives lenient phrase tokens) : surplus tokens = phrase.surplus := by
  induction hderives with
  | operand hrole => simp [Token.surplus_of_role hrole, Role.surplus, Phrase.surplus]
  | group hopening hclosing _ ih =>
      simp [Token.surplus_of_role hopening, Token.surplus_of_role hclosing, ih,
        Role.surplus, Phrase.surplus]
  | call hfunction hopening hclosing _ _ ihfirst ihsecond =>
      simp [Token.surplus_of_role hfunction, Token.surplus_of_role hopening,
        Token.surplus_of_role hclosing, ihfirst, ihsecond, Role.surplus, Phrase.surplus]
  | lower _ ih => exact ih
  | operation hoperator _ _ ihleft ihright =>
      simp [Token.surplus_of_role hoperator, ihleft, ihright, Role.surplus,
        Phrase.surplus]
  | lackingCall _ hfunction hopening hclosing _ _ _ ihfirst ihsecond ihthird =>
      simp [Token.surplus_of_role hfunction, Token.surplus_of_role hopening,
        Token.surplus_of_role hclosing, ihfirst, ihsecond, ihthird, Role.surplus,
        Phrase.surplus]
  | lastOperator hoperator _ _ ih =>
      simp [Token.surplus_of_role hoperator, ih, Role.surplus, Phrase.surplus]
  | furtherOperator hoperator _ _ _ ihoperand ihrest =>
      simp [Token.surplus_of_role hoperator, ihoperand, ihrest, Role.surplus,
        Phrase.surplus]

/-- Whatever even the lenient grammar reads has one operand more than it has
operators and functions. -/
theorem ReadsLeniently.surplus_eq_one {tokens : List Token} {expr : Expr}
    (hreads : ReadsLeniently tokens expr) : surplus tokens = 1 :=
  Derives.surplus_eq hreads

/-! ## Leaves and heads -/

/-- The operators and functions at the inner nodes. -/
def Expr.heads : Expr → List Head
  | .leaf _ => []
  | .apply head left right => head :: (left.heads ++ right.heads)

def Role.leaf? : Role → Option Leaf
  | .operand (.leaf found) => some found
  | _ => none

def Role.head? : Role → Option Head
  | .function fn => some (.function fn)
  | .operator op => some (.operator op)
  | _ => none

/-- The leaf that a token becomes. -/
def Token.leaf? (token : Token) : Option Leaf :=
  token.role?.bind Role.leaf?

/-- The operator or function that a token means. -/
def Token.head? (token : Token) : Option Head :=
  token.role?.bind Role.head?

theorem Token.leaf_of_role {token : Token} {role : Role}
    (hrole : token.role? = some role) : token.leaf? = role.leaf? := by
  rw [Token.leaf?, hrole, Option.bind_some]

theorem Token.head_of_role {token : Token} {role : Role}
    (hrole : token.role? = some role) : token.head? = role.head? := by
  rw [Token.head?, hrole, Option.bind_some]

theorem Token.exists_leaf {token : Token} {expr : Expr}
    (hrole : token.role? = some (.operand expr)) : ∃ found, expr = .leaf found := by
  rcases Token.kind_of_role hrole with ⟨-, rfl⟩ | ⟨-, rfl⟩ <;> exact ⟨_, rfl⟩

/-- The leaves of the phrase from left to right, those of the operand it is given
first. -/
def Phrase.HasLeaves (leaves : List Leaf) : Phrase → Prop
  | .complete _ expr => expr.leaves = leaves
  | .lacking _ given result => result.leaves = given.leaves ++ leaves

/-- The operators and functions of the phrase in any order, with those of the operand
it is given. -/
def Phrase.HasHeads (heads : List Head) : Phrase → Prop
  | .complete _ expr => expr.heads.Perm heads
  | .lacking _ given result => result.heads.Perm (given.heads ++ heads)

theorem Derives.hasLeaves {lenient : Bool} {phrase : Phrase} {tokens : List Token}
    (hderives : Derives lenient phrase tokens) :
    phrase.HasLeaves (tokens.filterMap Token.leaf?) := by
  induction hderives with
  | operand hrole =>
      obtain ⟨found, rfl⟩ := Token.exists_leaf hrole
      simp [Phrase.HasLeaves, Expr.leaves, Token.leaf_of_role hrole, Role.leaf?]
  | group hopening hclosing _ ih =>
      simpa [Phrase.HasLeaves, Token.leaf_of_role hopening, Token.leaf_of_role hclosing,
        Role.leaf?] using ih
  | call hfunction hopening hclosing _ _ ihfirst ihsecond =>
      simp only [Phrase.HasLeaves] at ihfirst ihsecond
      simp [Phrase.HasLeaves, Expr.leaves, Token.leaf_of_role hfunction,
        Token.leaf_of_role hopening, Token.leaf_of_role hclosing, Role.leaf?,
        ihfirst, ihsecond]
  | lower _ ih => exact ih
  | operation hoperator _ _ ihleft ihright =>
      simp only [Phrase.HasLeaves] at ihleft ihright
      simp [Phrase.HasLeaves, Expr.leaves, Token.leaf_of_role hoperator, Role.leaf?,
        ihleft, ihright]
  | lackingCall _ hfunction hopening hclosing _ _ _ ihfirst ihsecond ihthird =>
      simp only [Phrase.HasLeaves] at ihfirst ihsecond ihthird
      simp [Phrase.HasLeaves, Expr.leaves, Token.leaf_of_role hfunction,
        Token.leaf_of_role hopening, Token.leaf_of_role hclosing, Role.leaf?,
        ihfirst, ihsecond, ihthird]
  | lastOperator hoperator _ _ ih =>
      simp only [Phrase.HasLeaves] at ih
      simp [Phrase.HasLeaves, Expr.leaves, Token.leaf_of_role hoperator, Role.leaf?, ih]
  | furtherOperator hoperator _ _ _ ihoperand ihrest =>
      simp only [Phrase.HasLeaves] at ihoperand ihrest
      simp [Phrase.HasLeaves, Expr.leaves, Token.leaf_of_role hoperator, Role.leaf?,
        ihoperand, ihrest]

theorem Derives.hasHeads {lenient : Bool} {phrase : Phrase} {tokens : List Token}
    (hderives : Derives lenient phrase tokens) :
    phrase.HasHeads (tokens.filterMap Token.head?) := by
  induction hderives with
  | operand hrole =>
      obtain ⟨found, rfl⟩ := Token.exists_leaf hrole
      simp [Phrase.HasHeads, Expr.heads, Token.head_of_role hrole, Role.head?]
  | group hopening hclosing _ ih =>
      simpa [Phrase.HasHeads, Token.head_of_role hopening, Token.head_of_role hclosing,
        Role.head?] using ih
  | call hfunction hopening hclosing _ _ ihfirst ihsecond =>
      simpa [Phrase.HasHeads, Expr.heads, Token.head_of_role hfunction,
        Token.head_of_role hopening, Token.head_of_role hclosing, Role.head?]
        using ihfirst.append ihsecond
  | lower _ ih => exact ih
  | operation hoperator _ _ ihleft ihright =>
      simpa [Phrase.HasHeads, Expr.heads, Token.head_of_role hoperator,
        Role.head?] using ((ihleft.append ihright).cons _).trans List.perm_middle.symm
  | lackingCall _ hfunction hopening hclosing _ _ _ ihfirst ihsecond ihthird =>
      simpa [Phrase.HasHeads, Expr.heads, Token.head_of_role hfunction,
        Token.head_of_role hopening, Token.head_of_role hclosing, Role.head?] using
        ihfirst.append (ihthird.trans (ihsecond.append_right _))
  | @lastOperator _ op _ _ _ _ hoperator _ _ ih =>
      have hbehind :=
        (ih.cons (.operator op)).trans (List.perm_append_singleton _ _).symm
      simpa [Phrase.HasHeads, Expr.heads, Token.head_of_role hoperator,
        Role.head?] using List.perm_middle.symm.trans (hbehind.append_left _)
  | @furtherOperator _ op _ _ _ _ _ _ hoperator _ _ _ ihoperand ihrest =>
      have hrest := ihrest.trans (ihoperand.append_right _)
      have hbehind := (hrest.cons (.operator op)).trans List.perm_middle.symm
      simpa [Phrase.HasHeads, Expr.heads, Token.head_of_role hoperator,
        Role.head?] using List.perm_middle.symm.trans (hbehind.append_left _)

/-- The leaves of the expression are the operands of the tokens, in their order. -/
theorem ReadsLeniently.leaves_eq {tokens : List Token} {expr : Expr}
    (hreads : ReadsLeniently tokens expr) :
    expr.leaves = tokens.filterMap Token.leaf? :=
  Derives.hasLeaves hreads

/-- The inner nodes of the expression are the operators and functions of the tokens. -/
theorem ReadsLeniently.heads_perm {tokens : List Token} {expr : Expr}
    (hreads : ReadsLeniently tokens expr) :
    expr.heads.Perm (tokens.filterMap Token.head?) :=
  Derives.hasHeads hreads

end InfixCalc
