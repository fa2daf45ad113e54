import Mathlib
import InfixCalc.Proofs.Chains
import InfixCalc.Proofs.Completeness
import InfixCalc.Proofs.Safety
import InfixCalc.Proofs.Soundness

/-!
# What the reader recognises

The reader accepts what the lenient grammar derives and nothing else.  The one form
the lenient grammar adds has an operator directly before a closing parenthesis.
Where no operator stands there, the reader recognises exactly the chains of operands,
and the tree it builds is the one the grammar derives.
-/

namespace InfixCalc

/-! ## The lenient grammar -/

/-- The reader never fails because of a defect. -/
theorem readTokens_ok_or_fault {tokens : List Token}
    (hformed : ∀ token ∈ tokens, token.isWellFormed = true) :
    (∃ expr, (readTokens .building tokens).result = .ok expr) ∨
      ∃ fault, (readTokens .building tokens).result = .error (.fault fault) ∧
        fault.IsParsing := by
  rcases readTokens_safe .building hformed with
    ⟨expr, hresult, -⟩ | ⟨fault, hresult, hparsing, -⟩
  · exact .inl ⟨expr, hresult⟩
  · exact .inr ⟨fault, hresult, hparsing⟩

theorem readTokens_ok_of_readsLeniently {tokens : List Token} {expr : Expr}
    (hreads : ReadsLeniently tokens expr) :
    (readTokens .building tokens).result = .ok expr := by
  obtain ⟨last, hrun, hfinish⟩ := finish_of_readsLeniently hreads
  rw [readTokens_of_run hrun, hfinish]
  rfl

theorem readsLeniently_of_readTokens_ok {tokens : List Token} {expr : Expr}
    (hformed : ∀ token ∈ tokens, token.isWellFormed = true)
    (hresult : (readTokens .building tokens).result = .ok expr) :
    ReadsLeniently tokens expr := by
  rcases Nest.run_or_fault .start hformed with ⟨last, hrun⟩ |
    ⟨consumed, token, rest, nest, role, means, fault, rfl, hrun, hread⟩
  · rw [readTokens_of_run hrun] at hresult
    have hnest := nestRead_start.run hrun
    rw [List.nil_append] at hnest
    cases hfinish : last.finish with
    | ok whole =>
        rw [hfinish] at hresult
        cases hresult
        exact hnest.finish hfinish
    | error fault =>
        rw [hfinish] at hresult
        cases hresult
  · rw [readTokens_of_fault hrun means hread] at hresult
    cases hresult

theorem readTokens_ok_iff_readsLeniently {tokens : List Token} (expr : Expr)
    (hformed : ∀ token ∈ tokens, token.isWellFormed = true) :
    (readTokens .building tokens).result = .ok expr ↔ ReadsLeniently tokens expr :=
  ⟨readsLeniently_of_readTokens_ok hformed, readTokens_ok_of_readsLeniently⟩

/-- Not even the lenient grammar is ambiguous. -/
theorem readsLeniently_unique {tokens : List Token} {first second : Expr}
    (hfirst : ReadsLeniently tokens first) (hsecond : ReadsLeniently tokens second) :
    first = second := by
  have hresult := readTokens_ok_of_readsLeniently hfirst
  rw [readTokens_ok_of_readsLeniently hsecond] at hresult
  exact (Except.ok.inj hresult).symm

/-! ## Operators before closing parentheses -/

/-- No operator stands directly before a closing parenthesis. -/
def OperandsClosed (tokens : List Token) : Prop :=
  tokens.IsChain fun former latter =>
    former.kind.isOperator = true → latter.kind ≠ .closeParen

instance (tokens : List Token) : Decidable (OperandsClosed tokens) :=
  inferInstanceAs (Decidable (tokens.IsChain _))

theorem Role.not_isOperator_of_endsOperand {role : Role}
    (hends : role.endsOperand = true) : role.isOperator = false := by
  cases role with
  | operator op => cases hends
  | _ => rfl

theorem Token.ne_closeParen_of_startsOperand {token : Token} {role : Role}
    (hrole : token.role? = some role) (hstarts : role.startsOperand = true) :
    token.kind ≠ .closeParen := by
  intro hkind
  rw [← Token.startsOperand_of_role hrole, hkind] at hstarts
  cases hstarts

/-- A phrase that breaks off ends in an operator. -/
theorem Derives.exists_lastOperator {lenient : Bool} {phrase : Phrase}
    {tokens : List Token} (hderives : Derives lenient phrase tokens) {level : Nat}
    {given result : Expr} (hlacking : phrase = .lacking level given result) :
    ∃ front last op, tokens = front ++ [last] ∧ last.role? = some (.operator op) := by
  induction hderives generalizing level given result with
  | lastOperator hoperator => exact ⟨_, _, _, rfl, hoperator⟩
  | @furtherOperator _ _ token lefts _ _ _ _ _ _ _ _ _ ih =>
      obtain ⟨front, last, op, rfl, hoperator⟩ := ih rfl
      refine ⟨lefts ++ token :: front, last, op, ?_, hoperator⟩
      rw [List.append_assoc, List.cons_append]
  | _ => cases hlacking

/-- A whole expression ends in a token that can end an operand. -/
theorem Derives.exists_last {lenient : Bool} {phrase : Phrase} {tokens : List Token}
    (hderives : Derives lenient phrase tokens) {level : Nat} {expr : Expr}
    (hcomplete : phrase = .complete level expr) :
    ∃ front last role, tokens = front ++ [last] ∧ last.role? = some role ∧
      role.endsOperand = true := by
  induction hderives generalizing level expr with
  | operand hrole => exact ⟨[], _, _, rfl, hrole, rfl⟩
  | @group opening closing tokens _ _ hclosing =>
      exact ⟨opening :: tokens, closing, _, rfl, hclosing, rfl⟩
  | @call function opening closing fn firsts seconds _ _ _ _ hclosing =>
      refine ⟨function :: opening :: (firsts ++ seconds), closing, _, ?_, hclosing, rfl⟩
      simp only [List.cons_append, List.append_assoc]
  | lower _ ih => exact ih rfl
  | @operation op token lefts rights _ _ _ _ _ _ ih =>
      obtain ⟨front, last, role, rfl, hrole, hends⟩ := ih rfl
      refine ⟨lefts ++ token :: front, last, role, ?_, hrole, hends⟩
      rw [List.append_assoc, List.cons_append]
  | @lackingCall function opening closing fn firsts seconds thirds _ _ _ _ _ _
        hclosing =>
      refine ⟨function :: opening :: (firsts ++ (seconds ++ thirds)), closing, _, ?_,
        hclosing, rfl⟩
      simp only [List.cons_append, List.append_assoc]
  | lastOperator | furtherOperator => cases hcomplete

theorem operandsClosed_cons {first : Token} {rest : List Token} {role : Role}
    (hrole : first.role? = some role) (hother : role.isOperator = false)
    (hrest : OperandsClosed rest) : OperandsClosed (first :: rest) := by
  refine hrest.cons fun latter _ hoperator => ?_
  rw [Token.isOperator_of_role hrole, hother] at hoperator
  cases hoperator

theorem operandsClosed_cons_of_starts {first second : Token} {rest : List Token}
    {role : Role} (hrole : second.role? = some role)
    (hstarts : role.startsOperand = true) (hrest : OperandsClosed (second :: rest)) :
    OperandsClosed (first :: second :: rest) :=
  List.isChain_cons_cons.mpr
    ⟨fun _ => Token.ne_closeParen_of_startsOperand hrole hstarts, hrest⟩

theorem operandsClosed_append {front behind : List Token} {level : Nat} {expr : Expr}
    {lenient : Bool} (hderives : Derives lenient (.complete level expr) front)
    (hfront : OperandsClosed front) (hbehind : OperandsClosed behind) :
    OperandsClosed (front ++ behind) := by
  obtain ⟨most, last, role, rfl, hrole, hends⟩ := hderives.exists_last rfl
  refine hfront.append hbehind fun former hformer latter _ hoperator => ?_
  rw [List.getLast?_concat] at hformer
  cases hformer
  rw [Token.isOperator_of_role hrole,
    Role.not_isOperator_of_endsOperand hends] at hoperator
  cases hoperator

/-- In what the grammar derives every operator has an operand behind it, unless the
phrase breaks off there. -/
theorem operandsClosed_of_derives {phrase : Phrase} {tokens : List Token}
    (hderives : Derives false phrase tokens) : OperandsClosed tokens := by
  induction hderives with
  | operand => exact List.isChain_singleton _
  | lower _ ih => exact ih
  | group hopening _ hinside ih =>
      exact operandsClosed_cons hopening rfl
        (operandsClosed_append hinside ih (List.isChain_singleton _))
  | @call function opening closing _ _ _ _ _ hfunction hopening _ hfirst hsecond ihfirst
      ihsecond =>
      have hseconds :=
        operandsClosed_append hsecond ihsecond (List.isChain_singleton closing)
      exact operandsClosed_cons hfunction rfl
        (operandsClosed_cons hopening rfl
          (operandsClosed_append hfirst ihfirst hseconds))
  | operation _ hleft hright ihleft ihright =>
      obtain ⟨first, rest, role, rfl, hrole, hstarts⟩ := hright.exists_first
      exact operandsClosed_append hleft ihleft
        (operandsClosed_cons_of_starts hrole hstarts ihright)
  | lackingCall hlenient => exact absurd hlenient Bool.false_ne_true
  | lastOperator _ _ hoperand ih =>
      exact operandsClosed_append hoperand ih (List.isChain_singleton _)
  | furtherOperator _ _ hoperand hrest ihoperand ihrest =>
      obtain ⟨first, rest, role, rfl, hrole, hstarts⟩ := hrest.exists_first
      exact operandsClosed_append hoperand ihoperand
        (operandsClosed_cons_of_starts hrole hstarts ihrest)

theorem not_operandsClosed_of_lacking {lenient : Bool} {level : Nat}
    {given result : Expr} {tokens behind : List Token} {closing : Token}
    (hderives : Derives lenient (.lacking level given result) tokens)
    (hclosing : closing.role? = some .closing) :
    ¬OperandsClosed (tokens ++ closing :: behind) := by
  obtain ⟨front, last, op, rfl, hoperator⟩ := hderives.exists_lastOperator rfl
  intro hclosed
  rw [List.append_assoc, List.singleton_append] at hclosed
  have hpair := (List.isChain_append_cons_cons.mp hclosed).2.1
  exact hpair (Token.isOperator_of_role hoperator) (Token.kind_of_role hclosing)

/-- Where no operator stands directly before a closing parenthesis the lenient grammar
derives no more than the grammar. -/
theorem Derives.strict_of_lenient {phrase : Phrase} {tokens : List Token}
    (hderives : Derives true phrase tokens) (hclosed : OperandsClosed tokens) :
    Derives false phrase tokens := by
  induction hderives with
  | operand hrole => exact .operand hrole
  | lower _ ih => exact .lower (ih hclosed)
  | group hopening hclosing _ ih =>
      exact .group hopening hclosing (ih hclosed.tail.left_of_append)
  | call hfunction hopening hclosing _ _ ihfirst ihsecond =>
      have hinside := hclosed.tail.tail
      exact .call hfunction hopening hclosing (ihfirst hinside.left_of_append)
        (ihsecond hinside.right_of_append.left_of_append)
  | operation hoperator _ _ ihleft ihright =>
      exact .operation hoperator (ihleft hclosed.left_of_append)
        (ihright hclosed.right_of_append.tail)
  | lackingCall _ _ _ hclosing _ _ hthird =>
      have hinside := hclosed.tail.tail.right_of_append.right_of_append
      exact absurd hinside (not_operandsClosed_of_lacking hthird hclosing)
  | lastOperator hoperator hlevel _ ih =>
      exact .lastOperator hoperator hlevel (ih hclosed.left_of_append)
  | furtherOperator hoperator hlevel _ _ ihoperand ihrest =>
      exact .furtherOperator hoperator hlevel (ihoperand hclosed.left_of_append)
        (ihrest hclosed.right_of_append.tail)

theorem readsLeniently_iff_reads {tokens : List Token} (expr : Expr)
    (hclosed : OperandsClosed tokens) : ReadsLeniently tokens expr ↔
      Reads tokens expr :=
  ⟨fun hreads => Derives.strict_of_lenient hreads hclosed, Derives.lenient_of_strict⟩

/-! ## The grammar -/

/-- Where every operator has something else than a closing parenthesis behind it, the
reader answers with an expression exactly if the grammar derives that expression.  It
derives one from the chains of operands, and every other row of tokens ends in a fault
of how the tokens are put together. -/
theorem readTokens_recognizes_grammar {tokens : List Token}
    (hformed : ∀ token ∈ tokens, token.isWellFormed = true)
    (hclosed : OperandsClosed tokens) :
    (∀ expr, (readTokens .building tokens).result = .ok expr ↔ Reads tokens expr) ∧
      ((∃ expr, Reads tokens expr) ↔ Forms .chain tokens) ∧
      (¬Forms .chain tokens →
        ∃ fault, (readTokens .building tokens).result = .error (.fault fault) ∧
          fault.IsParsing) := by
  have haccepts (expr : Expr) :
      (readTokens .building tokens).result = .ok expr ↔ Reads tokens expr := by
    rw [readTokens_ok_iff_readsLeniently expr hformed,
      readsLeniently_iff_reads expr hclosed]
  refine ⟨haccepts, exists_reads_iff_forms tokens, fun hnone => ?_⟩
  rcases readTokens_ok_or_fault hformed with ⟨expr, hresult⟩ | hfault
  · exact absurd ((exists_reads_iff_forms tokens).mp ⟨expr, (haccepts expr).mp hresult⟩)
      hnone
  · exact hfault

theorem max_minus_group_reads :
    let tokens : List Token :=
      [⟨.function, "max", 0, none⟩, ⟨.openParen, "(", 3, none⟩,
        ⟨.number, "1", 4, some 1⟩, ⟨.number, "2", 7, some 2⟩,
        ⟨.operator .pow, "^", 8, none⟩, ⟨.number, "3", 9, some 3⟩,
        ⟨.operator .pow, "^", 10, none⟩, ⟨.number, "2", 11, some 2⟩,
        ⟨.closeParen, ")", 12, none⟩, ⟨.operator .sub, "-", 14, none⟩,
        ⟨.openParen, "(", 16, none⟩, ⟨.number, "4", 17, some 4⟩,
        ⟨.operator .sub, "-", 19, none⟩, ⟨.number, "5", 21, some 5⟩,
        ⟨.closeParen, ")", 22, none⟩]
    let power : Expr := .apply (.operator .pow) (.number (some 2))
      (.apply (.operator .pow) (.number (some 3)) (.number (some 2)))
    let difference : Expr :=
      .apply (.operator .sub) (.number (some 4)) (.number (some 5))
    (∀ token ∈ tokens, token.isWellFormed = true) ∧ OperandsClosed tokens ∧
      Reads tokens (.apply (.operator .sub)
        (.apply (.function .max) (.number (some 1)) power) difference) := by
  intro tokens power difference
  have hformed : ∀ token ∈ tokens, token.isWellFormed = true := by decide
  have hclosed : OperandsClosed tokens := by decide
  exact ⟨hformed, hclosed, ((readTokens_recognizes_grammar hformed hclosed).1 _).mp rfl⟩

end InfixCalc
