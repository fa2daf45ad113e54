import InfixCalc.Proofs.FoldingAgreement
import InfixCalc.Proofs.NestRuns
import InfixCalc.Proofs.Recognition

/-!
# The first violation decides the fault

Where every operator has something behind it that may begin an operand, a fault can be
told from an outline of the tokens so far: the latest of them, and the pairs of
parentheses that are still open, each with the number of places where one of its
operands meets the next.  No precedence and no operand is looked at.  The first token
that does not go with its outline decides the fault and ends the reading.
-/

namespace InfixCalc

/-! ## Outlines -/

/-- A pair of parentheses that is still open. -/
structure OpenPair where
  opening : Token
  /-- The function in front of the pair, if it holds the arguments of a call. -/
  function : Option Token
  /-- The places directly inside where one operand ends and another one starts. -/
  boundaries : Nat

/-- The latest token and the open pairs, the innermost first. -/
structure Outline where
  previous : Option Token
  pairs : List OpenPair

def Outline.start : Outline := ⟨none, []⟩

/-- An operand ends in front of the token, and the token starts another one. -/
def Outline.isBoundary (outline : Outline) (token : Token) : Bool :=
  endsOperand outline.previous && token.kind.startsOperand

def Outline.isBehindOpening (outline : Outline) : Bool :=
  outline.previous.any fun token => token.kind = .openParen

/-- The innermost open pair holds the arguments of a call. -/
def Outline.isInsideCall (outline : Outline) : Bool :=
  outline.pairs.head?.any fun pair => pair.function.isSome

/-- The open pairs, with the boundary in front of the token counted for the
innermost. -/
def Outline.counted (outline : Outline) (token : Token) : List OpenPair :=
  match outline.pairs with
  | [] => []
  | pair :: rest =>
    if outline.isBoundary token then
      { pair with boundaries := pair.boundaries + 1 } :: rest
    else pair :: rest

def Outline.next (outline : Outline) (token : Token) : Outline where
  previous := some token
  pairs :=
    match token.kind with
    | .openParen => ⟨token, uncalled? outline.previous, 0⟩ :: outline.counted token
    | .closeParen => outline.pairs.tail
    | _ => outline.counted token

/-- The arguments in the innermost pair when it is closed. -/
def Outline.argumentCount (outline : Outline) (boundaries : Nat) : Nat :=
  if outline.isBehindOpening then 0 else boundaries + 1

/-- What is wrong with a closing parenthesis: it closes nothing, an empty pair, or a
call that has not two arguments. -/
def Outline.closingViolation? (outline : Outline) (token : Token) : Option Fault :=
  match outline.pairs with
  | [] => some (.located token.position .unopenedParenthesis)
  | ⟨opening, none, _⟩ :: _ =>
    if outline.isBehindOpening then some (.located opening.position .emptyParentheses)
    else none
  | ⟨_, some function, boundaries⟩ :: _ =>
    let count := outline.argumentCount boundaries
    (Fn.ofName? function.text).bind fun fn =>
      if count = 2 then none
      else some (.located function.position (.wrongArgumentCount fn count))

/-- What is wrong with a token behind the outline.  That a function lacks its
parenthesis goes before everything else. -/
def Outline.violation? (outline : Outline) (token : Token) : Option Fault :=
  match uncalled? outline.previous with
  | some function =>
    if token.kind = .openParen then none
    else some (.located token.position (.notCalled function.text (some token.text)))
  | none =>
    match token.kind with
    | .operator _ =>
      if endsOperand outline.previous then none
      else some (.located token.position (.missingLeftOperand token.text))
    | .closeParen => outline.closingViolation? token
    | _ =>
      if endsOperand outline.previous && !outline.isInsideCall then
        some (.located token.position (.adjacentOperands token.text))
      else none

/-- What is wrong with the end of the tokens: a function without its parenthesis, a pair
that is still open, or no token at all. -/
def Outline.shortcoming? (outline : Outline) : Option Fault :=
  match uncalled? outline.previous, outline.pairs with
  | some function, _ =>
    some (.located function.position (.notCalled function.text none))
  | none, pair :: _ => some (.located pair.opening.position .unclosedParenthesis)
  | none, [] => if outline.previous.isNone then some ⟨.emptyExpression, none⟩ else none

/-- The fault that is found, if there is one, and the tokens behind the one it
is found at. -/
structure Verdict where
  fault : Option Fault
  unread : List Token

/-- The verdict on tokens behind an outline: the first violation, or else what is wrong
with their end. -/
def Outline.verdict (outline : Outline) : List Token → Verdict
  | [] => ⟨outline.shortcoming?, []⟩
  | token :: rest =>
    match outline.violation? token with
    | some fault => ⟨some fault, rest⟩
    | none => (outline.next token).verdict rest

/-! ## Reports -/

variable {outline : Outline} {token : Token} {fault : Fault}

/-- What is reported of a token that does not go with the outline. -/
inductive Outline.Refuses (outline : Outline) (token : Token) (fault : Fault) : Prop
  | uncalled {function : Token} (hfunction : uncalled? outline.previous = some function)
      (hother : token.kind ≠ .openParen)
      (hreports : fault.Reports .parsing (some token.position) (some token.text))
  | adjacent (hends : endsOperand outline.previous = true)
      (hstarts : token.kind.startsOperand = true)
      (houtside : outline.isInsideCall = false)
      (hreports : fault.Reports .missingOperator (some token.position)
        (some token.text))
  | unpreceded (hoperator : token.kind.isOperator = true)
      (hbegins : endsOperand outline.previous = false)
      (hreports : fault.Reports .missingOperand (some token.position) none)
  | unopened (hclosing : token.kind = .closeParen) (hnone : outline.pairs = [])
      (hreports : fault.Reports .imbalancedParenthesis (some token.position)
        (some "')'"))
  | empty {pair : OpenPair} (hclosing : token.kind = .closeParen)
      (hpair : pair ∈ outline.pairs.head?) (hplain : pair.function = none)
      (hbehind : outline.isBehindOpening = true)
      (hreports : fault.Reports .missingOperand (some pair.opening.position) none)
  | miscounted {pair : OpenPair} {function : Token} {count : Nat}
      (hclosing : token.kind = .closeParen) (hpair : pair ∈ outline.pairs.head?)
      (hcall : pair.function = some function)
      (hcount : outline.argumentCount pair.boundaries = count) (hother : count ≠ 2)
      (hreports : fault.Reports .argumentCount (some function.position)
        (some (toString count)))

/-- What is reported of tokens that end with the outline. -/
inductive Outline.IsUnfinished (outline : Outline) (fault : Fault) : Prop
  | uncalled {function : Token} (hfunction : uncalled? outline.previous = some function)
      (hreports : fault.Reports .parsing (some function.position) none)
  | unclosed {pair : OpenPair} (hpair : pair ∈ outline.pairs.head?)
      (hreports : fault.Reports .imbalancedParenthesis
        (some pair.opening.position) none)
  | empty (hnone : outline.previous = none)
      (hreports : fault.Reports .parsing none none)

/-- Nothing is wrong with the tokens behind the outline up to one that is refused, and
the tokens behind it are left.  Or nothing is wrong with them but that they end. -/
inductive Outline.FailsWith (fault : Fault) : Outline → List Token → List Token → Prop
  | refused {outline : Outline} {token : Token} {rest : List Token}
      (hrefuses : outline.Refuses token fault) :
      FailsWith fault outline (token :: rest) rest
  | unfinished {outline : Outline} (hends : outline.IsUnfinished fault) :
      FailsWith fault outline [] []
  | later {outline : Outline} {token : Token} {rest unread : List Token}
      (hclear : outline.violation? token = none)
      (hrest : FailsWith fault (outline.next token) rest unread) :
      FailsWith fault outline (token :: rest) unread

theorem refuses_of_closingViolation (hclosing : token.kind = .closeParen)
    (hviolation : outline.closingViolation? token = some fault) :
    outline.Refuses token fault := by
  obtain ⟨previous, pairs⟩ := outline
  match pairs with
  | [] =>
      cases hviolation
      exact .unopened hclosing rfl ⟨rfl, rfl, rfl⟩
  | ⟨opening, none, boundaries⟩ :: rest =>
      simp only [Outline.closingViolation?] at hviolation
      split at hviolation <;> cases hviolation
      exact .empty hclosing rfl rfl ‹_› ⟨rfl, rfl, rfl⟩
  | ⟨opening, some function, boundaries⟩ :: rest =>
      obtain ⟨fn, -, hcount⟩ := Option.bind_eq_some_iff.mp hviolation
      split at hcount <;> cases hcount
      exact .miscounted hclosing rfl rfl rfl ‹_› ⟨rfl, rfl, rfl⟩

theorem refuses_of_violation (hviolation : outline.violation? token = some fault) :
    outline.Refuses token fault := by
  unfold Outline.violation? at hviolation
  split at hviolation
  · split at hviolation <;> cases hviolation
    exact .uncalled ‹_› ‹_› ⟨rfl, rfl, rfl⟩
  · split at hviolation
    · rename_i label hkind
      split at hviolation <;> cases hviolation
      have hoperator : token.kind.isOperator = true := by rw [hkind]; rfl
      exact .unpreceded hoperator (Bool.eq_false_iff.mpr ‹_›) ⟨rfl, rfl, rfl⟩
    · exact refuses_of_closingViolation ‹_› hviolation
    · rename_i hoperand hother
      split at hviolation <;> cases hviolation
      rename_i hadjacent
      obtain ⟨hends, houtside⟩ := Bool.and_eq_true_iff.mp hadjacent
      have hstarts : token.kind.startsOperand = true := by
        cases hkind : token.kind with
        | operator label => exact absurd hkind (hoperand label)
        | closeParen => exact absurd hkind hother
        | _ => rfl
      exact .adjacent hends hstarts (Bool.not_eq_true' _ ▸ houtside) ⟨rfl, rfl, rfl⟩

theorem isUnfinished_of_shortcoming (hshort : outline.shortcoming? = some fault) :
    outline.IsUnfinished fault := by
  unfold Outline.shortcoming? at hshort
  split at hshort
  · cases hshort
    exact .uncalled ‹_› ⟨rfl, rfl, rfl⟩
  · rename_i hpairs
    cases hshort
    exact .unclosed (by rw [hpairs]; rfl) ⟨rfl, rfl, rfl⟩
  · split at hshort <;> cases hshort
    exact .empty (Option.isNone_iff_eq_none.mp ‹_›) ⟨rfl, rfl, rfl⟩

/-- What the verdict finds is reported of the first token that is refused, or
of the end. -/
theorem failsWith_of_verdict {tokens : List Token}
    (hfault : (outline.verdict tokens).fault = some fault) :
    outline.FailsWith fault tokens (outline.verdict tokens).unread := by
  induction tokens generalizing outline with
  | nil => exact .unfinished (isUnfinished_of_shortcoming hfault)
  | cons token rest ih =>
      rw [Outline.verdict] at hfault ⊢
      cases hviolation : outline.violation? token with
      | some found =>
          rw [hviolation] at hfault
          cases hfault
          exact .refused (refuses_of_violation hviolation)
      | none =>
          rw [hviolation] at hfault
          exact .later hviolation (ih hfault)

/-! ## Outlines of nests -/

/-- The enclosure and the open pair were begun by the same tokens and have as many
finished arguments as boundaries. -/
inductive Enclosure.Fits : Enclosure → OpenPair → Prop
  | plain (opening : Token) (boundaries : Nat) (frames : List Frame) :
      Fits ⟨.plain opening.position, frames⟩ ⟨opening, none, boundaries⟩
  | call {function : Token} {fn : Fn} (means : function.role? = some (.function fn))
      (opening : Token) (arguments : List Expr) (frames : List Frame) :
      Fits ⟨.call function fn means opening.position arguments, frames⟩
        ⟨opening, some function, arguments.length⟩

/-- Where an operand has to come, nothing has been read of its group unless an operator
stands in front. -/
def Nest.BeginsBehind (nest : Nest) (previous : Option Token) : Prop :=
  match previous with
  | none => nest.frames = [] ∧ nest.outer = []
  | some token =>
    token.kind.isOperator = false → token.kind = .openParen ∧ nest.frames = [] ∧
      nest.outer ≠ [] ∧ innerArguments nest.outer = []

structure Nest.HasOutline (nest : Nest) (outline : Outline) : Prop where
  follows : nest.focus.Follows outline.previous
  pairs : List.Forall₂ Enclosure.Fits nest.outer outline.pairs
  begins : nest.focus = .operand → nest.BeginsBehind outline.previous

theorem hasOutline_start : Nest.start.HasOutline .start :=
  ⟨follows_start, .nil, fun _ => ⟨rfl, rfl⟩⟩

variable {nest : Nest} {role : Role}

/-- Reading the token fails with what is wrong with it, or leads to a nest with the next
outline. -/
def StepAgrees (result : Except Fault Nest) (outline : Outline) (token : Token) :
    Prop :=
  match outline.violation? token with
  | some fault => result = .error fault
  | none => ∃ next, result = .ok next ∧ next.HasOutline (outline.next token)

theorem stepAgrees_ok {next : Nest} (hviolation : outline.violation? token = none)
    (hnext : next.HasOutline (outline.next token)) :
    StepAgrees (.ok next) outline token := by
  rw [StepAgrees, hviolation]
  exact ⟨next, rfl, hnext⟩

theorem stepAgrees_error {fault : Fault}
    (hviolation : outline.violation? token = some fault) :
    StepAgrees (.error fault) outline token := by
  rw [StepAgrees, hviolation]

/-! ## Boundaries -/

theorem counted_of_not_isBoundary (hboundary : outline.isBoundary token = false) :
    outline.counted token = outline.pairs := by
  obtain ⟨previous, pairs⟩ := outline
  cases pairs with
  | nil => rfl
  | cons pair rest =>
      simp only [Outline.counted, hboundary, Bool.false_eq_true, if_false]

/-- A boundary inside a call is one argument more. -/
theorem counted_of_nextArgument {last : Expr} {next : Nest}
    (hpairs : List.Forall₂ Enclosure.Fits nest.outer outline.pairs)
    (hboundary : outline.isBoundary token = true)
    (hnext : nest.nextArgument? last = some next) :
    List.Forall₂ Enclosure.Fits next.outer (outline.counted token) := by
  obtain ⟨focus, frames, outer⟩ := nest
  obtain ⟨previous, pairs⟩ := outline
  cases hpairs with
  | nil => cases hnext
  | cons hfits hrest =>
      cases hfits with
      | plain => cases hnext
      | call means opening arguments around =>
          cases hnext
          simp only [Outline.counted, hboundary, if_true]
          exact .cons (.call means opening (joinAll frames last :: arguments) around)
            hrest

/-- There is another argument to come exactly inside a call. -/
theorem isInsideCall_eq_isSome
    (hpairs : List.Forall₂ Enclosure.Fits nest.outer outline.pairs) (last : Expr) :
    outline.isInsideCall = (nest.nextArgument? last).isSome := by
  obtain ⟨focus, frames, outer⟩ := nest
  obtain ⟨previous, pairs⟩ := outline
  cases hpairs with
  | nil => rfl
  | cons hfits hrest => cases hfits <;> rfl

/-! ## Steps -/

theorem hasOutline_of_complete {next : Nest} {pairs : List OpenPair} {expr : Expr}
    (hfocus : next.focus = .complete expr) (hfollows : next.focus.Follows (some token))
    (hpairs : List.Forall₂ Enclosure.Fits next.outer pairs) :
    next.HasOutline ⟨some token, pairs⟩ :=
  ⟨hfollows, hpairs, fun hoperand => by rw [hfocus] at hoperand; cases hoperand⟩

/-- The first token of an operand is read wherever an operand may come. -/
theorem readOperand_of_starts (means : token.role? = some role)
    (hstarts : role.startsOperand = true)
    (huncalled : uncalled? outline.previous = none)
    (hcounted : List.Forall₂ Enclosure.Fits nest.outer (outline.counted token)) :
    ∃ next, nest.readOperand token role means = .ok next ∧
      next.HasOutline (outline.next token) := by
  have hkind := Token.kind_of_role means
  cases role with
  | operator op => cases hstarts
  | closing => cases hstarts
  | operand expr =>
      have hnext : outline.next token = ⟨some token, outline.counted token⟩ := by
        rcases hkind with ⟨hkind, -⟩ | ⟨hkind, -⟩ <;> simp only [Outline.next, hkind]
      rw [hnext]
      exact ⟨_, rfl,
        hasOutline_of_complete rfl (follows_complete means rfl expr) hcounted⟩
  | function fn =>
      have hnext : outline.next token = ⟨some token, outline.counted token⟩ := by
        simp only [Outline.next, hkind.1]
      rw [hnext]
      exact ⟨_, rfl, follows_function means, hcounted, nofun⟩
  | opening =>
      have hnext : outline.next token =
          ⟨some token, ⟨token, none, 0⟩ :: outline.counted token⟩ := by
        simp only [Outline.next, hkind, huncalled]
      rw [hnext]
      exact ⟨_, rfl, follows_operand means (.inl rfl),
        .cons (.plain token 0 nest.frames) hcounted,
        fun _ _ => ⟨hkind, rfl, List.cons_ne_nil _ _, rfl⟩⟩

theorem violation_of_starts (outline : Outline) (means : token.role? = some role)
    (hstarts : role.startsOperand = true)
    (huncalled : uncalled? outline.previous = none) :
    outline.violation? token =
      if endsOperand outline.previous && !outline.isInsideCall then
        some (.located token.position (.adjacentOperands token.text))
      else none := by
  have hkind := Token.kind_of_role means
  cases role with
  | operator op => cases hstarts
  | closing => cases hstarts
  | operand expr =>
      rcases hkind with ⟨hkind, -⟩ | ⟨hkind, -⟩ <;>
        simp only [Outline.violation?, huncalled, hkind]
  | function fn => simp only [Outline.violation?, huncalled, hkind.1]
  | opening => simp only [Outline.violation?, huncalled, hkind]

theorem violation_of_operator (outline : Outline) {op : Op}
    (means : token.role? = some (.operator op))
    (huncalled : uncalled? outline.previous = none) :
    outline.violation? token =
      if endsOperand outline.previous then none
      else some (.located token.position (.missingLeftOperand token.text)) := by
  obtain ⟨label, hkind, -⟩ := Token.kind_of_role means
  simp only [Outline.violation?, huncalled, hkind]

theorem violation_of_closing (outline : Outline) (means : token.role? = some .closing)
    (huncalled : uncalled? outline.previous = none) :
    outline.violation? token = outline.closingViolation? token := by
  have hkind := Token.kind_of_role means
  simp only [Outline.violation?, huncalled, hkind]

/-- Closing a pair judges the number of operands in it. -/
theorem closeWith_agrees (means : token.role? = some .closing)
    (huncalled : uncalled? outline.previous = none)
    (hpairs : List.Forall₂ Enclosure.Fits nest.outer outline.pairs)
    {operands : List Expr}
    (hcount : nest.outer ≠ [] →
      operands.length = outline.argumentCount (innerArguments nest.outer).length) :
    StepAgrees (Nest.closeWith operands nest.outer token.position) outline token := by
  obtain ⟨focus, frames, outer⟩ := nest
  obtain ⟨previous, pairs⟩ := outline
  have hviolation := violation_of_closing ⟨previous, pairs⟩ means huncalled
  have hkind := Token.kind_of_role means
  have hclosed {expr : Expr} {around : List Frame} {rest : List Enclosure}
      {pair : OpenPair} {others : List OpenPair}
      (hrest : List.Forall₂ Enclosure.Fits rest others) :
      Nest.HasOutline ⟨.complete expr, around, rest⟩
        (Outline.next ⟨previous, pair :: others⟩ token) := by
    simp only [Outline.next, hkind]
    exact hasOutline_of_complete rfl (follows_complete means rfl expr) hrest
  cases hpairs with
  | nil => exact stepAgrees_error hviolation
  | cons hfits hrest =>
      have hcount := hcount (List.cons_ne_nil _ _)
      cases hfits with
      | plain opening boundaries around =>
          simp only [Outline.closingViolation?] at hviolation
          simp only [Outline.argumentCount, innerArguments, Opener.arguments,
            List.length_nil] at hcount
          split at hcount
          · rename_i hempty
            rw [if_pos hempty] at hviolation
            rw [List.eq_nil_of_length_eq_zero hcount]
            exact stepAgrees_error hviolation
          · rename_i hfilled
            rw [if_neg hfilled] at hviolation
            obtain ⟨expr, rfl⟩ := List.length_eq_one_iff.mp hcount
            exact stepAgrees_ok hviolation (hclosed hrest)
      | call known opening arguments around =>
          simp only [Outline.closingViolation?, (Token.kind_of_role known).2,
            Option.bind_some] at hviolation
          simp only [innerArguments, Opener.arguments] at hcount
          rw [← hcount] at hviolation
          rcases operands with - | ⟨second, - | ⟨first, - | ⟨third, more⟩⟩⟩
          · exact stepAgrees_error hviolation
          · exact stepAgrees_error hviolation
          · exact stepAgrees_ok hviolation (hclosed hrest)
          · rw [if_neg (by simp)] at hviolation
            exact stepAgrees_error hviolation

/-- Where an operand has to come, a closing parenthesis that does not stand behind an
operator closes an empty pair or nothing. -/
theorem close_agrees_of_operand (houtline : nest.HasOutline outline)
    (hfocus : nest.focus = .operand) (means : token.role? = some .closing)
    (hclosed : ∀ former ∈ outline.previous, former.kind.isOperator = false) :
    StepAgrees (nest.close token.position) outline token := by
  obtain ⟨focus, frames, outer⟩ := nest
  cases hfocus
  have hbegins := houtline.begins rfl
  have hframes : frames = [] := by
    cases hprevious : outline.previous with
    | none =>
        rw [hprevious] at hbegins
        exact hbegins.1
    | some former =>
        rw [hprevious] at hbegins
        exact (hbegins (hclosed former hprevious)).2.1
  subst hframes
  refine closeWith_agrees means houtline.follows.1 houtline.pairs fun houter => ?_
  cases hprevious : outline.previous with
  | none =>
      rw [hprevious] at hbegins
      exact absurd hbegins.2 houter
  | some former =>
      rw [hprevious] at hbegins
      obtain ⟨hopening, -, -, hnone⟩ := hbegins (hclosed former hprevious)
      have hempty : outline.isBehindOpening = true := by
        simp only [Outline.isBehindOpening, hprevious, Option.any_some, hopening,
          decide_true]
      dsimp only at hnone ⊢
      simp only [Outline.argumentCount, hempty, if_true, hnone, List.length_nil]

theorem close_agrees_of_complete {last : Expr} (houtline : nest.HasOutline outline)
    (hfocus : nest.focus = .complete last) (means : token.role? = some .closing) :
    StepAgrees (nest.close token.position) outline token := by
  obtain ⟨focus, frames, outer⟩ := nest
  cases hfocus
  obtain ⟨huncalled, hends⟩ := houtline.follows
  have hfilled : outline.isBehindOpening = false := by
    obtain ⟨former, hprevious, hformer⟩ := Option.any_eq_true _ _ |>.mp hends
    have hother : former.kind ≠ .openParen := by
      intro hkind
      rw [hkind] at hformer
      cases hformer
    simp only [Outline.isBehindOpening, hprevious, Option.any_some, hother,
      decide_false]
  refine closeWith_agrees means huncalled houtline.pairs fun _ => ?_
  simp only [Outline.argumentCount, hfilled, Bool.false_eq_true, if_false,
    List.length_cons]

/-- Behind an operand the next token ends its argument, unless it is an operator. -/
theorem readBehind_agrees {last : Expr} (houtline : nest.HasOutline outline)
    (hfocus : nest.focus = .complete last) (means : token.role? = some role) :
    StepAgrees (nest.readBehind last token role means) outline token := by
  obtain ⟨huncalled, hends⟩ : (Focus.complete last).Follows outline.previous :=
    hfocus ▸ houtline.follows
  have hargument (hstarts : role.startsOperand = true) :
      StepAgrees (nest.readBehind last token role means) outline token := by
    have hviolation := violation_of_starts outline means hstarts huncalled
    rw [hends, Bool.true_and, isInsideCall_eq_isSome houtline.pairs last] at hviolation
    rw [Nest.readBehind_of_starts _ _ means hstarts]
    cases hbetween : nest.nextArgument? last with
    | none =>
        rw [hbetween] at hviolation
        exact stepAgrees_error hviolation
    | some between =>
        rw [hbetween] at hviolation
        have hboundary : outline.isBoundary token = true := by
          rw [Outline.isBoundary, hends, Token.startsOperand_of_role means, hstarts]
          rfl
        obtain ⟨next, hread, hnext⟩ := readOperand_of_starts means hstarts huncalled
          (counted_of_nextArgument houtline.pairs hboundary hbetween)
        simp only [hread]
        exact stepAgrees_ok hviolation hnext
  cases role with
  | operand expr => exact hargument rfl
  | function fn => exact hargument rfl
  | opening => exact hargument rfl
  | closing => exact close_agrees_of_complete houtline hfocus means
  | operator op =>
      obtain ⟨label, hkind, -⟩ := Token.kind_of_role means
      have hviolation := violation_of_operator outline means huncalled
      rw [hends, if_pos rfl] at hviolation
      have hboundary : outline.isBoundary token = false := by
        rw [Outline.isBoundary, Token.startsOperand_of_role means,
          Bool.and_eq_false_iff]
        exact .inr rfl
      refine stepAgrees_ok hviolation ?_
      simp only [Outline.next, hkind, counted_of_not_isBoundary hboundary]
      refine ⟨follows_operand means (.inr ⟨op, rfl⟩), houtline.pairs,
        fun _ hother => ?_⟩
      rw [hkind] at hother
      cases hother

/-- Behind a function only its parenthesis is read. -/
theorem read_agrees_of_function {function : Token} {fn : Fn}
    {known : function.role? = some (.function fn)} (houtline : nest.HasOutline outline)
    (hfocus : nest.focus = .function function fn known)
    (means : token.role? = some role) :
    StepAgrees (nest.read token role means) outline token := by
  obtain ⟨focus, frames, outer⟩ := nest
  cases hfocus
  obtain ⟨huncalled, hends⟩ := houtline.follows
  have hkind := Token.kind_of_role means
  have hrefused (hother : token.kind ≠ .openParen) :
      outline.violation? token =
        some (.located token.position
          (.notCalled function.text (some token.text))) := by
    simp only [Outline.violation?, huncalled, if_neg hother]
  cases role with
  | operand expr =>
      refine stepAgrees_error (hrefused ?_)
      rcases hkind with ⟨hkind, -⟩ | ⟨hkind, -⟩ <;> simp [hkind]
  | function fn => exact stepAgrees_error (hrefused (by simp [hkind.1]))
  | operator op =>
      obtain ⟨label, hkind, -⟩ := hkind
      exact stepAgrees_error (hrefused (by simp [hkind]))
  | closing => exact stepAgrees_error (hrefused (by simp [hkind]))
  | opening =>
      have hviolation : outline.violation? token = none := by
        simp only [Outline.violation?, huncalled, hkind, if_true]
      have hboundary : outline.isBoundary token = false := by
        rw [Outline.isBoundary, hends]
        rfl
      refine stepAgrees_ok hviolation ?_
      simp only [Outline.next, hkind, huncalled, counted_of_not_isBoundary hboundary]
      exact ⟨follows_operand means (.inl rfl),
        .cons (.call known token [] frames) houtline.pairs,
        fun _ _ => ⟨hkind, rfl, List.cons_ne_nil _ _, rfl⟩⟩

/-- Unless it closes a pair directly behind an operator, a token is read exactly if
nothing is wrong with it. -/
theorem read_agrees (houtline : nest.HasOutline outline)
    (means : token.role? = some role)
    (hclosed : ∀ former ∈ outline.previous, former.kind.isOperator = true →
      token.kind ≠ .closeParen) :
    StepAgrees (nest.read token role means) outline token := by
  cases hfocus : nest.focus with
  | function function fn known => exact read_agrees_of_function houtline hfocus means
  | complete last =>
      have hread : nest.read token role means =
          nest.readBehind last token role means := by
        simp only [Nest.read, hfocus]
      rw [hread]
      exact readBehind_agrees houtline hfocus means
  | operand =>
      have hread : nest.read token role means = nest.readOperand token role means := by
        simp only [Nest.read, hfocus]
      obtain ⟨huncalled, hends⟩ : Focus.operand.Follows outline.previous :=
        hfocus ▸ houtline.follows
      have hboundary : outline.isBoundary token = false := by
        rw [Outline.isBoundary, hends]
        rfl
      have hstart (hstarts : role.startsOperand = true) :
          StepAgrees (nest.readOperand token role means) outline token := by
        have hviolation := violation_of_starts outline means hstarts huncalled
        rw [hends] at hviolation
        obtain ⟨next, hread, hnext⟩ := readOperand_of_starts means hstarts huncalled
          ((counted_of_not_isBoundary hboundary).symm ▸ houtline.pairs)
        rw [hread]
        exact stepAgrees_ok hviolation hnext
      rw [hread]
      cases role with
      | operand expr => exact hstart rfl
      | function fn => exact hstart rfl
      | opening => exact hstart rfl
      | operator op =>
          have hviolation := violation_of_operator outline means huncalled
          rw [hends] at hviolation
          exact stepAgrees_error hviolation
      | closing =>
          refine close_agrees_of_operand houtline hfocus means fun former hformer => ?_
          refine Bool.eq_false_iff.mpr fun hoperator => ?_
          exact hclosed former hformer hoperator (Token.kind_of_role means)

/-! ## Verdicts -/

/-- What is reached at the end of the tokens has the fault, or none if there is none. -/
def EndAgrees (result : Except Fault Expr) : Option Fault → Prop
  | some fault => result = .error fault
  | none => ∃ tree, result = .ok tree

theorem concludeWith_agrees {outer : List Enclosure} {operands : List Expr}
    (hpairs : List.Forall₂ Enclosure.Fits outer outline.pairs)
    (huncalled : uncalled? outline.previous = none)
    (hoperands : outer = [] →
      operands = [] ∧ outline.previous = none ∨ ∃ former expr, operands = [expr] ∧
        outline.previous = some former) :
    EndAgrees (Nest.concludeWith operands outer) outline.shortcoming? := by
  obtain ⟨previous, pairs⟩ := outline
  dsimp only at huncalled hoperands
  cases hpairs with
  | nil =>
      rcases hoperands rfl with ⟨rfl, rfl⟩ | ⟨former, expr, rfl, rfl⟩
      · exact rfl
      · simp only [Outline.shortcoming?, huncalled]
        exact ⟨expr, rfl⟩
  | cons hfits hrest =>
      simp only [Outline.shortcoming?, huncalled]
      cases hfits <;> rfl

/-- Where the last token is no operator, the end of the tokens is decided by
their outline, too. -/
theorem finish_agrees (houtline : nest.HasOutline outline)
    (hlast : ∀ former ∈ outline.previous, former.kind.isOperator = false) :
    EndAgrees nest.finish outline.shortcoming? := by
  obtain ⟨focus, frames, outer⟩ := nest
  obtain ⟨hfollows, hpairs, hbegins⟩ := houtline
  cases focus with
  | function function fn known =>
      simp only [Outline.shortcoming?, hfollows.1]
      rfl
  | complete last =>
      obtain ⟨former, hprevious, -⟩ := Option.any_eq_true _ _ |>.mp hfollows.2
      have hconclude : EndAgrees (Nest.concludeWith [joinAll frames last] outer)
          outline.shortcoming? :=
        concludeWith_agrees hpairs hfollows.1 fun _ => .inr ⟨former, _, rfl, hprevious⟩
      cases outer with
      | nil => exact hconclude
      | cons enclosure rest => exact hconclude
  | operand =>
      have hbegins := hbegins rfl
      cases hprevious : outline.previous with
      | none =>
          rw [hprevious] at hbegins
          obtain ⟨rfl, rfl⟩ := hbegins
          have hconclude : EndAgrees (Nest.concludeWith [] []) outline.shortcoming? :=
            concludeWith_agrees hpairs hfollows.1 fun _ => .inl ⟨rfl, hprevious⟩
          exact hconclude
      | some former =>
          rw [hprevious] at hbegins
          obtain ⟨-, rfl, hopen, hnone⟩ := hbegins (hlast former hprevious)
          dsimp only at hnone hopen
          have hconclude :
              EndAgrees (Nest.concludeWith [] outer) outline.shortcoming? :=
            concludeWith_agrees hpairs hfollows.1 fun houter => absurd houter hopen
          simp only [Nest.finish, Nest.settled, hnone]
          exact hconclude

/-- The reading fails with the fault of the verdict and leaves the same tokens unread,
or it succeeds because the verdict has no fault. -/
def Reading.Follows (reading : Reading) (verdict : Verdict) : Prop :=
  reading.unread = verdict.unread ∧
    (∀ fault, verdict.fault = some fault → reading.result = .error (.fault fault)) ∧
      (verdict.fault = none → ∃ tree, reading.result = .ok tree)

/-- No operator is the last token or directly in front of a closing parenthesis. -/
def OperatorsAreFollowed (tokens : List Token) : Prop :=
  OperandsClosed tokens ∧ ∀ last ∈ tokens.getLast?, last.kind.isOperator = false

instance (tokens : List Token) : Decidable (OperatorsAreFollowed tokens) :=
  inferInstanceAs (Decidable (_ ∧ _))

theorem finishReading_follows (houtline : nest.HasOutline outline)
    (hlast : ∀ former ∈ outline.previous, former.kind.isOperator = false) :
    (finishReading .building outline.previous nest.stacks).Follows
      (outline.verdict []) := by
  have hfinish := finish_agrees houtline hlast
  rw [finishReading_stacks nest houtline.follows, Outline.verdict]
  refine ⟨rfl, fun fault hfault => ?_, fun hfault => ?_⟩
  · dsimp only at hfault
    rw [hfault] at hfinish
    change nest.finish = _ at hfinish
    rw [hfinish]
    rfl
  · dsimp only at hfault
    rw [hfault] at hfinish
    obtain ⟨tree, hfinish⟩ := hfinish
    rw [hfinish]
    exact ⟨tree, rfl⟩

/-- The reader follows the verdict from any nest and its outline. -/
theorem readOn_follows {tokens : List Token}
    (hformed : ∀ token ∈ tokens, token.isWellFormed = true)
    (houtline : nest.HasOutline outline)
    (hfollowed : OperatorsAreFollowed (outline.previous.toList ++ tokens)) :
    (readOn .building outline.previous nest.stacks tokens).Follows
      (outline.verdict tokens) := by
  induction tokens generalizing nest outline with
  | nil =>
      refine finishReading_follows houtline fun former hformer => hfollowed.2 former ?_
      rw [List.append_nil, Option.mem_def.mp hformer]
      rfl
  | cons token rest ih =>
      obtain ⟨htoken, hrest⟩ := List.forall_mem_cons.mp hformed
      obtain ⟨role, means⟩ := Token.exists_role htoken
      have hclosed : ∀ former ∈ outline.previous, former.kind.isOperator = true →
          token.kind ≠ .closeParen := by
        intro former hformer
        have hchain := hfollowed.1
        rw [Option.mem_def.mp hformer] at hchain
        exact (List.isChain_cons_cons.mp hchain).1
      have hstep := read_agrees houtline means hclosed
      have hmatches := readToken_stacks nest houtline.follows means
      rw [readOn, Outline.verdict]
      rw [StepAgrees] at hstep
      cases hviolation : outline.violation? token with
      | some fault =>
          rw [hviolation] at hstep
          rw [hstep] at hmatches
          obtain ⟨state, hfailed, -⟩ := hmatches
          rw [hfailed]
          refine ⟨rfl, fun found hfound => ?_, fun hfound => ?_⟩
          · cases hfound
            rfl
          · cases hfound
      | none =>
          rw [hviolation] at hstep
          obtain ⟨next, hread, hnext⟩ := hstep
          rw [hread] at hmatches
          change readToken .building outline.previous token nest.stacks =
            .done next.stacks at hmatches
          rw [hmatches]
          refine ih hrest hnext ⟨hfollowed.1.right_of_append, fun last hlast => ?_⟩
          refine hfollowed.2 last ?_
          rw [List.getLast?_append_of_ne_nil _ (List.cons_ne_nil _ _)]
          exact hlast

theorem follows_verdict (mode : Mode) {tokens : List Token}
    (hformed : ∀ token ∈ tokens, token.isWellFormed = true)
    (hfollowed : OperatorsAreFollowed tokens) :
    (readTokens mode tokens).Follows (Outline.start.verdict tokens) := by
  have hbuilding :
      (readTokens .building tokens).Follows (Outline.start.verdict tokens) :=
    readOn_follows hformed hasOutline_start hfollowed
  cases mode with
  | building => exact hbuilding
  | folding meaning =>
      obtain ⟨hunread, hfault, hnone⟩ := hbuilding
      refine ⟨(readTokens_agree meaning hformed).unread.trans hunread,
        fun fault hfound => ?_, fun hfound => ?_⟩
      · exact readTokens_folding_of_error meaning hformed (hfault fault hfound)
      · obtain ⟨tree, hresult⟩ := hnone hfound
        obtain ⟨leaf, hfolded, -⟩ := exists_standsFor_of_ok meaning hformed hresult
        exact ⟨leaf, hfolded⟩

/-- A reading that follows the verdict fails with what is reported of the first token
that is refused, or of the end. -/
theorem Reading.Follows.failsWith {reading : Reading} {tokens : List Token}
    (hfollows : reading.Follows (outline.verdict tokens))
    (hfails : reading.result = .error (.fault fault)) :
    outline.FailsWith fault tokens reading.unread := by
  obtain ⟨hunread, hfault, hnone⟩ := hfollows
  cases hverdict : (outline.verdict tokens).fault with
  | none =>
      obtain ⟨tree, hresult⟩ := hnone hverdict
      rw [hfails] at hresult
      cases hresult
  | some found =>
      have hresult := hfault found hverdict
      rw [hfails] at hresult
      cases hresult
      rw [hunread]
      exact failsWith_of_verdict hverdict

/-- Where no operator is the last token or in front of a closing parenthesis, the
reader follows the verdict, whether it folds or builds.  A fault has the kind, the
place and the count of arguments that are reported of the first token that is refused,
or of the end. -/
theorem readTokens_follows_verdict (mode : Mode) {tokens : List Token}
    (hformed : ∀ token ∈ tokens, token.isWellFormed = true)
    (hfollowed : OperatorsAreFollowed tokens) :
    (readTokens mode tokens).Follows (Outline.start.verdict tokens) ∧
      ∀ fault, (readTokens mode tokens).result = .error (.fault fault) →
        Outline.start.FailsWith fault tokens (readTokens mode tokens).unread :=
  have hfollows := follows_verdict mode hformed hfollowed
  ⟨hfollows, fun _ hfails => hfollows.failsWith hfails⟩

/-- Of several faults it is the first that counts: the inner call has three arguments,
and the parentheses behind it are not looked at any more. -/
theorem inner_call_is_first_violation :
    let function : Token := ⟨.function, "max", 7, none⟩
    let unread : List Token :=
      [⟨.number, "4", 29, some 4⟩, ⟨.closeParen, ")", 30, none⟩,
        ⟨.closeParen, ")", 32, none⟩, ⟨.openParen, "(", 34, none⟩]
    let tokens : List Token :=
      [⟨.function, "min", 0, none⟩, ⟨.openParen, "(", 3, none⟩,
        ⟨.number, "2", 4, some 2⟩, function, ⟨.openParen, "(", 10, none⟩,
        ⟨.number, "1", 11, some 1⟩, ⟨.openParen, "(", 14, none⟩,
        ⟨.number, "3", 15, some 3⟩, ⟨.closeParen, ")", 16, none⟩,
        ⟨.number, "5", 18, some 5⟩, ⟨.operator .pow, "^", 23, none⟩,
        ⟨.number, "2", 25, some 2⟩, ⟨.closeParen, ")", 26, none⟩] ++ unread
    let reading := readTokens (.folding Head.apply) tokens
    let fault : Fault := .located function.position (.wrongArgumentCount .max 3)
    (∀ token ∈ tokens, token.isWellFormed = true) ∧ OperatorsAreFollowed tokens ∧
      reading.result = .error (.fault fault) ∧
      fault.Reports .argumentCount (some 7) (some "3") ∧ reading.unread = unread := by
  intro function unread tokens reading fault
  have hformed : ∀ token ∈ tokens, token.isWellFormed = true := by decide
  have hfollowed : OperatorsAreFollowed tokens := by decide
  obtain ⟨⟨hunread, hfault, -⟩, -⟩ :=
    readTokens_follows_verdict (.folding Head.apply) hformed hfollowed
  exact ⟨hformed, hfollowed, hfault _ rfl, ⟨rfl, rfl, rfl⟩, hunread⟩

end InfixCalc
