import InfixCalc.Proofs.Conservation
import InfixCalc.Proofs.LackingOperands
import InfixCalc.Proofs.Leaves
import InfixCalc.Proofs.RoundTrip
import InfixCalc.Proofs.Tiling

/-!
# Expressions the syntax cannot express

Any double can be written, but infinity and what is not a number are written as words
that mean nothing, and a sign is written as an operator that has no left operand of its
own.  Such a text is never read as another expression: either it has no tokens, or its
tokens have too few operands, whatever stands around the sign.
-/

namespace InfixCalc

open InfixCalc.Rounding

/-- A number with a value, or the constant as it is known to the scanner. -/
def Leaf.IsLiteral : Leaf → Prop
  | .number value => value.isSome = true
  | .constant name value => name = "pi" ∧ value = some 3.14159265359
  | _ => False

/-- The double has a sign, or it is infinite or not a number at all. -/
def HasNoNumeral (value : Float) : Prop :=
  isSigned value = true ∨ infiniteMagnitude ≤ magnitudeOf value

theorem Expr.IsExpressible.of_mem_leaves {expr : Expr}
    (hexpressible : expr.IsExpressible) : ∀ leaf ∈ expr.leaves, leaf.IsExpressible := by
  induction expr with
  | leaf found =>
      intro leaf hmem
      rw [List.mem_singleton.mp hmem]
      exact hexpressible
  | apply head left right ihleft ihright =>
      exact List.forall_mem_append.mpr ⟨ihleft hexpressible.1, ihright hexpressible.2⟩

/-- Tokens of the text never leave over more operands than one.  They leave over that
one only if the syntax can express the expression. -/
def Accounts (chars : List Char) (expr : Expr) : Prop :=
  ∀ position tokens, Tiling position chars tokens →
    surplus tokens ≤ 1 ∧ (surplus tokens = 1 → expr.IsExpressible)

/-! ## Literals -/

theorem not_tiling_nan {position : Nat} {tokens : List Token} :
    ¬Tiling position ['n', 'a', 'n'] tokens := by
  intro htiling
  obtain ⟨token, -, htoken⟩ := htiling.of_word (by decide) (by decide)
  cases htoken

theorem not_tiling_inf {position : Nat} {tokens : List Token} :
    ¬Tiling position ['i', 'n', 'f'] tokens := by
  intro htiling
  obtain ⟨token, -, htoken⟩ := htiling.of_word (by decide) (by decide)
  cases htoken

variable {print : Float → String}

/-- What is printed without a sign has tokens for a finite double only, and they are
a single operand. -/
theorem surplus_print (hprint : IsPositional print) {value : Float}
    (hnumber : magnitudeOf value ≤ infiniteMagnitude) (hclear : isSigned value = false)
    {position : Nat} {tokens : List Token}
    (htiling : Tiling position (print value).toList tokens) :
    magnitudeOf value < infiniteMagnitude ∧ surplus tokens = 1 := by
  rcases hnumber.lt_or_eq with hfinite | hinfinite
  · obtain ⟨token, rfl, htoken⟩ := htiling.of_run (hprint.toList_ne_nil hfinite hclear)
      fun _ hmem => classify_print hprint hfinite hclear hmem
    obtain ⟨known, -, rfl⟩ := numeralToken_eq_ok htoken
    exact ⟨hfinite, rfl⟩
  · rw [hprint.infinity hinfinite hclear] at htiling
    exact absurd htiling not_tiling_inf

theorem accounts_number (hprint : IsPositional print) (value : Float) :
    Accounts (print value).toList (.number (some value)) := by
  intro position tokens htiling
  by_cases hnumber : magnitudeOf value ≤ infiniteMagnitude
  · cases hsign : isSigned value with
    | true =>
        have hnegated : magnitudeOf (-value) ≤ infiniteMagnitude :=
          (magnitudeOf_neg hnumber).trans_le hnumber
        have hclear : isSigned (-value) = false := by
          rw [isSigned_neg hnumber, hsign, Bool.not_true]
        have hminus : classify '-' = .symbol (.operator .sub) := classify_symbol .sub
        rw [hprint.sign hnumber hsign] at htiling
        obtain ⟨others, rfl, hothers⟩ := htiling.of_symbol hminus
        obtain ⟨-, hsurplus⟩ := surplus_print hprint hnegated hclear hothers
        have hnothing :
            surplus (⟨.operator .sub, String.ofList ['-'], position, none⟩ :: others)
              = 0 := by
          rw [surplus_cons, hsurplus]
          rfl
        exact ⟨by omega, fun hone => by omega⟩
    | false =>
        obtain ⟨hfinite, hsurplus⟩ := surplus_print hprint hnumber hsign htiling
        exact ⟨hsurplus.le, fun _ => ⟨hfinite, hsign⟩⟩
  · rw [hprint.notNumber (Nat.lt_of_not_le hnumber)] at htiling
    exact absurd htiling not_tiling_nan

theorem accounts_pi : Accounts "pi".toList (.constant "pi" (some 3.14159265359)) := by
  intro position tokens htiling
  obtain ⟨token, rfl, htoken⟩ := htiling.of_word (by decide) (by decide)
  cases htoken
  exact ⟨le_of_eq rfl, fun _ => ⟨rfl, rfl⟩⟩

/-! ## Nodes -/

theorem Accounts.enclosed {chars : List Char} {expr : Expr}
    (haccounts : Accounts chars expr) : Accounts ('(' :: (chars ++ [')'])) expr := by
  intro position tokens htiling
  have hopening : classify '(' = .symbol .openParen := rfl
  have hclosing : classify ')' = .symbol .closeParen := rfl
  obtain ⟨others, rfl, hinside⟩ := htiling.of_symbol hopening
  obtain ⟨firsts, seconds, rfl, hfirsts, hseconds⟩ :=
    hinside.split rfl (not_insideRun_cons (ne_runMember_of_symbol hclosing))
  obtain ⟨lasts, rfl, hlasts⟩ := hseconds.of_symbol hclosing
  obtain rfl := hlasts.eq_nil
  obtain ⟨hmost, hone⟩ := haccounts _ _ hfirsts
  simpa [Kind.surplus] using ⟨hmost, hone⟩

theorem accounts_enclosedIf {text : String} {expr : Expr} (needed : Bool)
    (haccounts : Accounts text.toList expr) :
    Accounts (enclosedIf needed text).toList expr := by
  cases needed with
  | false => exact haccounts
  | true =>
      have htext : (enclosedIf true text).toList = '(' :: (text.toList ++ [')']) := by
        simp only [enclosedIf, if_true, String.toList_append]
        rfl
      rw [htext]
      exact haccounts.enclosed

/-- An operator or a function takes one of the two operands that are left over. -/
theorem accounts_of_surplus {head : Head} {left right : Expr}
    {lefts rights tokens : List Token}
    (hleft : surplus lefts ≤ 1 ∧ (surplus lefts = 1 → left.IsExpressible))
    (hright : surplus rights ≤ 1 ∧ (surplus rights = 1 → right.IsExpressible))
    (hsurplus : surplus tokens = surplus lefts + surplus rights - 1) :
    surplus tokens ≤ 1 ∧
      (surplus tokens = 1 → (Expr.apply head left right).IsExpressible) := by
  refine ⟨by omega, fun hone => ⟨hleft.2 ?_, hright.2 ?_⟩⟩
  · omega
  · omega

theorem accounts_operation {op : Op} {leftText rightText : String} {left right : Expr}
    (hleft : Accounts leftText.toList left) (hright : Accounts rightText.toList right) :
    Accounts (op.between leftText rightText).toList
      (.apply (.operator op) left right) := by
  intro position tokens htiling
  have hsymbol := classify_symbol op
  by_cases hpower : op = .pow
  · subst hpower
    rw [toList_between_pow] at htiling
    obtain ⟨lefts, behind, rfl, hlefts, hbehind⟩ :=
      htiling.split rfl (not_insideRun_cons (ne_runMember_of_symbol hsymbol))
    obtain ⟨rights, rfl, hrights⟩ := hbehind.of_symbol hsymbol
    refine accounts_of_surplus (hleft _ _ hlefts) (hright _ _ hrights) ?_
    simp only [surplus_append, surplus_cons, Kind.surplus]
    omega
  · have hblank : classify ' ' = .separator := rfl
    rw [toList_between hpower] at htiling
    obtain ⟨lefts, behind, rfl, hlefts, hbehind⟩ :=
      htiling.split rfl (not_insideRun_cons (ne_runMember_of_separator hblank))
    obtain ⟨rights, rfl, hrights⟩ := (hbehind.of_separator hblank).of_symbol hsymbol
    refine accounts_of_surplus (hleft _ _ hlefts)
      (hright _ _ (hrights.of_separator hblank)) ?_
    simp only [surplus_append, surplus_cons, Kind.surplus]
    omega

theorem surplus_fn {fn : Fn} {position : Nat} {tokens : List Token}
    (htiling : Tiling position fn.name.toList tokens) : surplus tokens = -1 := by
  have hnonempty : fn.name.toList ≠ [] := by cases fn <;> decide
  have hletters :
      (fn.name.toList.all fun char => classify char = .runMember .word) = true := by
    cases fn <;> decide
  obtain ⟨token, rfl, htoken⟩ := htiling.of_word hnonempty hletters
  cases fn <;> cases htoken <;> rfl

theorem accounts_call (fn : Fn) {leftText rightText : String} {left right : Expr}
    (hleft : Accounts leftText.toList left) (hright : Accounts rightText.toList right) :
    Accounts (fn.name ++ "(" ++ leftText ++ ", " ++ rightText ++ ")").toList
      (.apply (.function fn) left right) := by
  intro position tokens htiling
  have hopening : classify '(' = .symbol .openParen := rfl
  have hclosing : classify ')' = .symbol .closeParen := rfl
  have hcomma : classify ',' = .separator := rfl
  have hblank : classify ' ' = .separator := rfl
  rw [toList_call] at htiling
  obtain ⟨functions, behind, rfl, hfunctions, hbehind⟩ :=
    htiling.split rfl (not_insideRun_cons (ne_runMember_of_symbol hopening))
  obtain ⟨arguments, rfl, harguments⟩ := hbehind.of_symbol hopening
  obtain ⟨lefts, others, rfl, hlefts, hothers⟩ :=
    harguments.split rfl (not_insideRun_cons (ne_runMember_of_separator hcomma))
  obtain ⟨rights, closings, rfl, hrights, hclosings⟩ :=
    ((hothers.of_separator hcomma).of_separator hblank).split rfl
      (not_insideRun_cons (ne_runMember_of_symbol hclosing))
  obtain ⟨lasts, rfl, hlasts⟩ := hclosings.of_symbol hclosing
  obtain rfl := hlasts.eq_nil
  refine accounts_of_surplus (hleft _ _ hlefts) (hright _ _ hrights) ?_
  simp only [surplus_append, surplus_cons, surplus_nil, surplus_fn hfunctions,
    Kind.surplus]
  omega

theorem accounts_apply (head : Head) {leftText rightText : String} {left right : Expr}
    (hleft : Accounts leftText.toList left) (hright : Accounts rightText.toList right) :
    Accounts (joinedText head left right leftText rightText).toList
      (.apply head left right) := by
  cases head with
  | operator op =>
      exact accounts_operation (accounts_enclosedIf _ hleft)
        (accounts_enclosedIf _ hright)
  | function fn => exact accounts_call fn hleft hright

/-- Every tree of literals has a text, and the text accounts for its operands. -/
theorem exists_accounts (hprint : IsPositional print) {expr : Expr}
    (hliteral : ∀ leaf ∈ expr.leaves, leaf.IsLiteral) :
    ∃ text, expr.textWith print = .ok text ∧ Accounts text.toList expr := by
  induction expr with
  | leaf found =>
      rw [Expr.textWith_leaf]
      have hfound := hliteral found (List.mem_singleton_self found)
      match found, hfound with
      | .number (some value), _ => exact ⟨_, rfl, accounts_number hprint value⟩
      | .constant _ _, ⟨rfl, rfl⟩ => exact ⟨_, rfl, accounts_pi⟩
  | apply head left right ihleft ihright =>
      obtain ⟨hlefts, hrights⟩ := List.forall_mem_append.mp hliteral
      obtain ⟨leftText, hleftText, hleft⟩ := ihleft hlefts
      obtain ⟨rightText, hrightText, hright⟩ := ihright hrights
      refine ⟨_, ?_, accounts_apply head hleft hright⟩
      rw [Expr.textWith_apply, hleftText, hrightText]
      rfl

/-! ## The refusal -/

/-- A text whose tokens leave over another number of operands than one is refused. -/
theorem readText_fault_of_surplus (mode : Mode) {text : String}
    (hsurplus : ∀ tokens, Tiling 0 text.toList tokens → surplus tokens ≠ 1) :
    ∃ fault, readText mode text = .error (.fault fault) := by
  unfold readText
  cases htokens : tokenize text with
  | error fault => exact ⟨fault, rfl⟩
  | ok tokens =>
      have htiling := scan_eq_ok_iff.mp htokens
      have hnone : ¬∃ tree, ReadsLeniently tokens tree :=
        fun ⟨_, hreads⟩ => hsurplus tokens htiling hreads.surplus_eq_one
      obtain ⟨fault, hresult, -⟩ :=
        readTokens_fault_of_not_lenient mode htiling.isWellFormed hnone
      exact ⟨fault, hresult⟩

/-- A tree of literals that holds a double without a numeral has a text, whichever
positional printer prints its numbers, and that text is refused by every reader. -/
theorem readText_text_of_hasNoNumeral (hprint : IsPositional print) {expr : Expr}
    (hliteral : ∀ leaf ∈ expr.leaves, leaf.IsLiteral) {value : Float}
    (hmem : .number (some value) ∈ expr.leaves) (hvalue : HasNoNumeral value) :
    ∃ text, expr.textWith print = .ok text ∧
      ∀ mode, ∃ fault, readText mode text = .error (.fault fault) := by
  obtain ⟨text, htext, haccounts⟩ := exists_accounts hprint hliteral
  refine ⟨text, htext,
    fun mode => readText_fault_of_surplus mode fun tokens htiling hone => ?_⟩
  obtain ⟨hfinite, hsign⟩ := ((haccounts 0 tokens htiling).2 hone).of_mem_leaves _ hmem
  rcases hvalue with hsigned | hinfinite
  · rw [hsign] at hsigned
    cases hsigned
  · exact absurd hfinite (Nat.not_lt.mpr hinfinite)

theorem signed_argument_refused :
    let negative : Float := -5
    let expr : Expr := .apply (.function .max) (.number (some 1))
      (.apply (.operator .sub) (.number (some negative))
        (.constant "pi" (some 3.14159265359)))
    (∀ leaf ∈ expr.leaves, leaf.IsLiteral) ∧ .number (some negative) ∈ expr.leaves ∧
      HasNoNumeral negative ∧
      ∃ text, expr.text = .ok text ∧
        ∀ mode, ∃ fault, readText mode text = .error (.fault fault) := by
  intro negative expr
  have hliteral : ∀ leaf ∈ expr.leaves, leaf.IsLiteral :=
    List.forall_mem_cons.mpr ⟨rfl, List.forall_mem_cons.mpr ⟨rfl,
      List.forall_mem_singleton.mpr ⟨rfl, rfl⟩⟩⟩
  have hmem : .number (some negative) ∈ expr.leaves := .tail _ (.head _)
  have hvalue : HasNoNumeral negative := .inl (by decide +kernel)
  exact ⟨hliteral, hmem, hvalue,
    readText_text_of_hasNoNumeral isPositional_literalText hliteral hmem hvalue⟩

end InfixCalc
