import InfixCalc.Proofs.Soundness

/-!
# Chains of operands

Without precedence an expression is a chain, operands with an operator between each
two of them.  Precedence says how a chain is read, not which rows of tokens are chains:
every chain has a tree, and every tree is that of a chain.
-/

namespace InfixCalc

inductive Category
  | operand
  | chain

/-- The grammar without precedence. -/
inductive Forms : Category → List Token → Prop
  | leaf {token : Token} {expr : Expr} (hrole : token.role? = some (.operand expr)) :
      Forms .operand [token]
  | group {opening closing : Token} {tokens : List Token}
      (hopening : opening.role? = some .opening)
      (hclosing : closing.role? = some .closing) (hinside : Forms .chain tokens) :
      Forms .operand (opening :: (tokens ++ [closing]))
  | call {function opening closing : Token} {fn : Fn} {firsts seconds : List Token}
      (hfunction : function.role? = some (.function fn))
      (hopening : opening.role? = some .opening)
      (hclosing : closing.role? = some .closing) (hfirst : Forms .chain firsts)
      (hsecond : Forms .chain seconds) :
      Forms .operand (function :: opening :: (firsts ++ (seconds ++ [closing])))
  | single {tokens : List Token} (hoperand : Forms .operand tokens) :
      Forms .chain tokens
  | link {operator : Token} {op : Op} {tokens operand : List Token}
      (hchain : Forms .chain tokens) (hoperator : operator.role? = some (.operator op))
      (hoperand : Forms .operand operand) :
      Forms .chain (tokens ++ operator :: operand)

/-- A chain is left as frames with an operand behind them. -/
def Category.Derivable : Category → List Token → Prop
  | .operand, tokens => ∃ expr, Derives false (.complete operandLevel expr) tokens
  | .chain, tokens =>
    ∃ frames level before last operand, FramesRead false frames level before ∧
        Derives false (.complete operandLevel last) operand ∧ tokens = before ++ operand

theorem Category.Derivable.reads {tokens : List Token}
    (hderivable : Category.chain.Derivable tokens) : ∃ expr, Reads tokens expr := by
  obtain ⟨frames, level, before, last, operand, hframes, hoperand, rfl⟩ := hderivable
  exact ⟨_, hframes.complete hframes.level_le hoperand⟩

/-- Another link of a chain ends the frames that leave the operand in front of it to the
left. -/
theorem Category.Derivable.link {operator : Token} {op : Op}
    {tokens operand : List Token} (hchain : Category.chain.Derivable tokens)
    (hoperator : operator.role? = some (.operator op))
    (hoperand : Category.operand.Derivable operand) :
    Category.chain.Derivable (tokens ++ operator :: operand) := by
  obtain ⟨frames, level, before, last, latest, hframes, hlatest, rfl⟩ := hchain
  obtain ⟨expr, hexpr⟩ := hoperand
  obtain ⟨kept, front, behind, hkept, hprecedence, hbehind, htokens⟩ :=
    hframes.operator op hframes.level_le op.leftLevel_le_operandLevel hlatest
  let taken := joinAll (frames.takeWhile fun frame => frame.op.leftFirst op) last
  have hnewer : FramesRead false (⟨taken, operator, op, hoperator⟩ :: _) op.rightLevel
      (front ++ (behind ++ [operator])) := .cons hkept hprecedence hbehind
  refine ⟨_, _, _, expr, operand, hnewer, hexpr, ?_⟩
  rw [htokens]
  simp only [List.append_assoc, List.singleton_append]

theorem derivable_of_forms {category : Category} {tokens : List Token}
    (hforms : Forms category tokens) : category.Derivable tokens := by
  induction hforms with
  | leaf hrole => exact ⟨_, .operand hrole⟩
  | group hopening hclosing _ ih =>
      obtain ⟨expr, hinside⟩ := ih.reads
      exact ⟨expr, .group hopening hclosing hinside⟩
  | call hfunction hopening hclosing _ _ ihfirst ihsecond =>
      obtain ⟨first, hfirst⟩ := ihfirst.reads
      obtain ⟨second, hsecond⟩ := ihsecond.reads
      exact ⟨_, .call hfunction hopening hclosing hfirst hsecond⟩
  | single _ ih =>
      obtain ⟨expr, hexpr⟩ := ih
      exact ⟨[], exprLevel, [], expr, _, .nil, hexpr, rfl⟩
  | link _ hoperator _ ihchain ihoperand => exact ihchain.link hoperator ihoperand

theorem Forms.append {operator : Token} {op : Op} {lefts rights : List Token}
    (hlefts : Forms .chain lefts) (hoperator : operator.role? = some (.operator op))
    {category : Category} (hrights : Forms category rights) :
    Forms .chain (lefts ++ operator :: rights) := by
  induction hrights with
  | leaf hrole => exact .link hlefts hoperator (.leaf hrole)
  | group hopening hclosing hinside =>
      exact .link hlefts hoperator (.group hopening hclosing hinside)
  | call hfunction hopening hclosing hfirst hsecond =>
      exact .link hlefts hoperator (.call hfunction hopening hclosing hfirst hsecond)
  | single hoperand => exact .link hlefts hoperator hoperand
  | link _ hbetween hoperand ih _ =>
      have hlonger := Forms.link ih hbetween hoperand
      rwa [List.append_assoc, List.cons_append] at hlonger

/-- At every level a derivation is that of a chain. -/
theorem forms_of_derives {phrase : Phrase} {tokens : List Token}
    (hderives : Derives false phrase tokens) {level : Nat} {expr : Expr}
    (hcomplete : phrase = .complete level expr) : Forms .chain tokens := by
  induction hderives generalizing level expr with
  | operand hrole => exact .single (.leaf hrole)
  | group hopening hclosing _ ih => exact .single (.group hopening hclosing (ih rfl))
  | call hfunction hopening hclosing _ _ ihfirst ihsecond =>
      exact .single (.call hfunction hopening hclosing (ihfirst rfl) (ihsecond rfl))
  | lower _ ih => exact ih rfl
  | operation hoperator _ _ ihleft ihright =>
      exact (ihleft rfl).append hoperator (ihright rfl)
  | lackingCall hlenient => exact absurd hlenient Bool.false_ne_true
  | lastOperator | furtherOperator => cases hcomplete

/-- Precedence gives every chain a tree and gives a tree to nothing else. -/
theorem exists_reads_iff_forms (tokens : List Token) :
    (∃ expr, Reads tokens expr) ↔ Forms .chain tokens := by
  constructor
  · rintro ⟨expr, hreads⟩
    exact forms_of_derives hreads rfl
  · intro hforms
    exact (derivable_of_forms hforms).reads

end InfixCalc
