import InfixCalc.Proofs.Parentheses
import InfixCalc.Proofs.ReadFaults
import InfixCalc.Proofs.Recognition

/-!
# The reader judges the balance of parentheses

A nest keeps the parentheses that are still open, and drops each of them with its
partner.  So the reader finds a lack of balance where it shows first: at a closing
parenthesis that has no partner in front of it, or else, when all tokens have been read,
at the last opening parenthesis that has none behind it.
-/

namespace InfixCalc

/-! ## The open parentheses of a nest -/

/-- The parentheses of the groups that are open, the innermost first. -/
def Nest.openPositions (nest : Nest) : List Int :=
  nest.outer.map fun enclosure => enclosure.opener.position

variable {tokens : List Token} {nest next : Nest} {token : Token} {role : Role}

theorem openPositions_of_close {position : Int}
    (hclose : nest.close position = .ok next) :
    ∃ start, nest.openPositions = start :: next.openPositions := by
  obtain ⟨operands, -, hwith⟩ := close_eq_ok hclose
  unfold Nest.closeWith at hwith
  split at hwith
  · cases hwith
  all_goals
    rename_i houter
    split at hwith <;> cases hwith
    exact ⟨_, by rw [Nest.openPositions, houter, List.map_cons]; rfl⟩

theorem openPositions_of_nextArgument {last : Expr}
    (hnext : nest.nextArgument? last = some next) :
    next.openPositions = nest.openPositions := by
  obtain ⟨focus, frames, outer⟩ := nest
  match outer, hnext with
  | ⟨.call _ _ _ _ _, _⟩ :: _, hnext =>
      cases hnext
      rfl

/-- What reading a token of this role does to the parentheses that are open. -/
def OpensOrCloses (token : Token) (role : Role) (former latter : List Int) : Prop :=
  match role with
  | .opening => latter = token.position :: former
  | .closing => ∃ start, former = start :: latter
  | _ => latter = former

theorem opensOrCloses_of_readOperand {means : token.role? = some role}
    (hread : nest.readOperand token role means = .ok next) :
    OpensOrCloses token role nest.openPositions next.openPositions := by
  cases role with
  | operator op => cases hread
  | closing => exact openPositions_of_close hread
  | operand expr | function fn | opening =>
      cases hread
      rfl

/-- Only parentheses are opened or closed, one at a time. -/
theorem opensOrCloses_of_read {means : token.role? = some role}
    (hread : nest.read token role means = .ok next) :
    OpensOrCloses token role nest.openPositions next.openPositions := by
  obtain ⟨focus, frames, outer⟩ := nest
  cases focus with
  | operand => exact opensOrCloses_of_readOperand hread
  | function function fn known =>
      cases role <;> cases hread
      rfl
  | complete last =>
      change Nest.readBehind _ last token role means = .ok next at hread
      rcases Nest.readBehind_eq_ok hread with
        ⟨op, known, rfl, rfl⟩ | ⟨rfl, hclose⟩ | ⟨between, hbetween, hoperand⟩
      · rfl
      · exact openPositions_of_close hclose
      · rw [← openPositions_of_nextArgument hbetween]
        exact opensOrCloses_of_readOperand hoperand

def Role.isParenthesis : Role → Bool
  | .opening | .closing => true
  | _ => false

theorem Token.isParenthesis_of_role (means : token.role? = some role) :
    token.kind.isParenthesis = role.isParenthesis :=
  known_of_role means (fun _ => rfl) (fun _ => rfl) (fun _ => rfl)
    (fun _ _ => rfl) rfl rfl

/-- The parentheses that the nest keeps are those that the tokens leave open. -/
def Nest.KeepsOpen (nest : Nest) (consumed : List Token) : Prop :=
  ∃ openings, Opened openings consumed ∧
    nest.openPositions = openings.map Token.position

theorem keepsOpen_start : Nest.start.KeepsOpen [] :=
  ⟨[], .balanced .nil, rfl⟩

theorem Nest.KeepsOpen.read {consumed : List Token} (hkeeps : nest.KeepsOpen consumed)
    (means : token.role? = some role) (hread : nest.read token role means = .ok next) :
    next.KeepsOpen (consumed ++ [token]) := by
  obtain ⟨openings, hopened, hpositions⟩ := hkeeps
  have hsteps := opensOrCloses_of_read hread
  rw [hpositions] at hsteps
  have hkind := Token.kind_of_role means
  cases role with
  | operand expr | function fn | operator op =>
      -- A token that is no parenthesis is balanced by itself.
      have hother : token.kind.isParenthesis = false :=
        Token.isParenthesis_of_role means
      exact ⟨openings, hopened.append (.other hother .nil), hsteps⟩
  | opening => exact ⟨token :: openings, .opening hopened hkind .nil, hsteps⟩
  | closing =>
      obtain ⟨start, hstart⟩ := hsteps
      cases openings with
      | nil => cases hstart
      | cons opening openings =>
          exact ⟨openings, hopened.close hkind, (List.cons.inj hstart).2.symm⟩

theorem Nest.KeepsOpen.run {last : Nest} {consumed more : List Token}
    (hkeeps : nest.KeepsOpen consumed) (hrun : Nest.Run nest more last) :
    last.KeepsOpen (consumed ++ more) := by
  induction hrun generalizing consumed with
  | nil => rwa [List.append_nil]
  | cons means hread _ ih =>
      have hlast := ih (hkeeps.read means hread)
      rwa [List.append_assoc, List.singleton_append] at hlast

theorem Nest.KeepsOpen.balanced {consumed : List Token}
    (hkeeps : nest.KeepsOpen consumed) (hnone : nest.outer = []) :
    Balanced consumed := by
  obtain ⟨openings, hopened, hpositions⟩ := hkeeps
  rw [Nest.openPositions, hnone, List.map_nil, eq_comm,
    List.map_eq_nil_iff] at hpositions
  subst hpositions
  obtain ⟨hbalanced⟩ := hopened
  exact hbalanced

/-! ## Faults about parentheses -/

variable {fault : Fault}

theorem settled_not_imbalanced (hsettled : nest.settled = .error fault) :
    fault.cause.kind ≠ .imbalancedParenthesis := by
  obtain ⟨frame, frames, -, -, rfl⟩ := settled_eq_error hsettled
  exact nofun

theorem close_imbalanced {position : Int} (hclose : nest.close position = .error fault)
    (himbalanced : fault.cause.kind = .imbalancedParenthesis) :
    nest.outer = [] ∧ fault = .located position .unopenedParenthesis := by
  rcases close_eq_error hclose with hsettled | ⟨operands, -, hwith⟩
  · exact absurd himbalanced (settled_not_imbalanced hsettled)
  · unfold Nest.closeWith at hwith
    split at hwith
    · cases hwith
      exact ⟨by assumption, rfl⟩
    all_goals
      split at hwith <;> cases hwith
      all_goals cases himbalanced

theorem readOperand_imbalanced (means : token.role? = some role)
    (hread : nest.readOperand token role means = .error fault)
    (himbalanced : fault.cause.kind = .imbalancedParenthesis) :
    token.kind = .closeParen ∧ nest.outer = [] ∧
      fault = .located token.position .unopenedParenthesis := by
  cases role with
  | operator op =>
      cases hread
      cases himbalanced
  | closing => exact ⟨Token.kind_of_role means, close_imbalanced hread himbalanced⟩
  | operand expr | function fn | opening => cases hread

/-- While tokens are read, balance is missed only at a closing parenthesis
outside all groups. -/
theorem read_imbalanced (means : token.role? = some role)
    (hread : nest.read token role means = .error fault)
    (himbalanced : fault.cause.kind = .imbalancedParenthesis) :
    token.kind = .closeParen ∧ nest.outer = [] ∧
      fault = .located token.position .unopenedParenthesis := by
  obtain ⟨focus, frames, outer⟩ := nest
  cases focus with
  | operand => exact readOperand_imbalanced means hread himbalanced
  | function function fn known =>
      cases role <;> cases hread
      all_goals cases himbalanced
  | complete last =>
      change Nest.readBehind _ last token role means = .error fault at hread
      rcases readBehind_eq_error hread with ⟨rfl, hclose⟩ | ⟨-, rfl⟩
      · exact ⟨Token.kind_of_role means, close_imbalanced hclose himbalanced⟩
      · cases himbalanced

/-- At the end of the tokens, balance is missed for the innermost group. -/
theorem finish_imbalanced (hfinish : nest.finish = .error fault)
    (himbalanced : fault.cause.kind = .imbalancedParenthesis) :
    ∃ start rest, nest.openPositions = start :: rest ∧
      fault = .located start .unclosedParenthesis := by
  rcases finish_eq_error hfinish with ⟨function, fn, means, -, rfl⟩ |
    ⟨-, hsettled | ⟨operands, -, hconclude⟩⟩
  · cases himbalanced
  · exact absurd himbalanced (settled_not_imbalanced hsettled)
  · unfold Nest.concludeWith at hconclude
    split at hconclude
    · rename_i houter
      cases hconclude
      exact ⟨_, _, by rw [Nest.openPositions, houter, List.map_cons], rfl⟩
    · split at hconclude <;> cases hconclude
      all_goals cases himbalanced

/-! ## The verdict on balance -/

/-- The token at which parentheses turn out not to be balanced, what is said of it, and
the tokens that are not read any more. -/
inductive ImbalanceAt (tokens : List Token) : Token → Cause → List Token → Prop
  /-- The first closing parenthesis that has no partner in front of it. -/
  | unopened {before behind : List Token} {closing : Token}
      (htokens : tokens = before ++ closing :: behind)
      (hkind : closing.kind = .closeParen) (hfirst : ClosingsMatch before)
      (hlone : ¬HasOpening before) :
      ImbalanceAt tokens closing .unopenedParenthesis behind
  /-- The last opening parenthesis that has no partner behind it, where all the closing
  ones have theirs. -/
  | unclosed {before behind : List Token} {opening : Token}
      (htokens : tokens = before ++ opening :: behind)
      (hkind : opening.kind = .openParen) (hclosings : ClosingsMatch tokens)
      (hlast : OpeningsMatch behind) (hlone : ¬HasClosing behind) :
      ImbalanceAt tokens opening .unclosedParenthesis []

theorem ImbalanceAt.not_balanced {cause : Cause} {unread : List Token}
    (himbalance : ImbalanceAt tokens token cause unread) : ¬Balanced tokens := by
  intro hbalanced
  cases himbalance with
  | unopened htokens hkind _ hlone =>
      exact hlone (hbalanced.closingsMatch _ _ _ htokens hkind)
  | unclosed htokens hkind _ _ hlone =>
      exact hlone (hbalanced.openingsMatch _ _ _ htokens hkind)

theorem exists_imbalanceAt (mode : Mode)
    (hformed : ∀ token ∈ tokens, token.isWellFormed = true)
    (hresult : (readTokens mode tokens).result = .error (.fault fault))
    (himbalanced : fault.cause.kind = .imbalancedParenthesis) :
    ∃ token, fault.position = some token.position ∧
      ImbalanceAt tokens token fault.cause (readTokens mode tokens).unread := by
  rw [readTokens_unread mode hformed]
  rcases exists_run_of_fault hformed hresult with ⟨last, hrun, hfinish⟩ |
    ⟨consumed, token, rest, nest, role, means, rfl, hrun, hread⟩
  · rw [readTokens_of_run hrun]
    obtain ⟨start, rest, hstart, rfl⟩ := finish_imbalanced hfinish himbalanced
    obtain ⟨openings, hopened, hpositions⟩ := keepsOpen_start.run hrun
    rw [hstart] at hpositions
    cases openings with
    | nil => cases hpositions
    | cons opening openings =>
        obtain ⟨front, inside, htokens, hkind, hinside⟩ := hopened.exists_unclosed
        refine ⟨opening, congrArg some (List.cons.inj hpositions).1, ?_⟩
        exact .unclosed htokens hkind hopened.closingsMatch hinside.openingsMatch
          hinside.not_hasClosing
  · rw [readTokens_of_fault hrun means hread]
    obtain ⟨hkind, hnone, rfl⟩ := read_imbalanced means hread himbalanced
    have hconsumed : Balanced consumed := (keepsOpen_start.run hrun).balanced hnone
    exact ⟨token, rfl,
      .unopened rfl hkind hconsumed.closingsMatch hconsumed.not_hasOpening⟩

theorem balanced_of_readTokens_ok {expr : Expr}
    (hformed : ∀ token ∈ tokens, token.isWellFormed = true)
    (hresult : (readTokens .building tokens).result = .ok expr) : Balanced tokens := by
  obtain ⟨last, hrun, hfinish⟩ :=
    finish_of_readsLeniently (readsLeniently_of_readTokens_ok hformed hresult)
  obtain ⟨-, hnone, -⟩ := finish_eq_ok hfinish
  exact (keepsOpen_start.run hrun).balanced hnone

/-- The balance of parentheses is judged exactly.  It is never missed where there is
balance, and where there is none the tokens are refused.  What is said to miss its
partner is the first closing parenthesis that has none, and if all of them have one, the
last opening parenthesis that has none. -/
theorem readTokens_judges_balance (mode : Mode)
    (hformed : ∀ token ∈ tokens, token.isWellFormed = true) :
    (Balanced tokens → ∀ fault,
        (readTokens mode tokens).result = .error (.fault fault) →
          fault.cause.kind ≠ .imbalancedParenthesis) ∧
      (¬Balanced tokens →
        ∃ fault, (readTokens mode tokens).result = .error (.fault fault) ∧
          fault.IsParsing) ∧
      ∀ fault, (readTokens mode tokens).result = .error (.fault fault) →
        fault.cause.kind = .imbalancedParenthesis →
        ∃ token, fault.position = some token.position ∧
          ImbalanceAt tokens token fault.cause (readTokens mode tokens).unread := by
  refine ⟨fun hbalanced fault hresult himbalanced => ?_, fun hunbalanced => ?_,
    fun fault => exists_imbalanceAt mode hformed⟩
  · obtain ⟨token, -, himbalance⟩ := exists_imbalanceAt mode hformed hresult himbalanced
    exact himbalance.not_balanced hbalanced
  · rcases readTokens_ok_or_fault hformed with
      ⟨expr, hresult⟩ | ⟨fault, hresult, hparsing⟩
    · exact absurd (balanced_of_readTokens_ok hformed hresult) hunbalanced
    · exact ⟨fault, (readTokens_eq_error_iff mode hformed).mpr hresult, hparsing⟩

/-- The second closing parenthesis has no partner, and nothing behind it is read. -/
theorem second_closing_is_unopened :
    let tokens : List Token :=
      [⟨.openParen, "(", 0, none⟩, ⟨.number, "1", 1, some 1⟩,
        ⟨.closeParen, ")", 2, none⟩, ⟨.closeParen, ")", 3, none⟩,
        ⟨.operator .mul, "*", 5, none⟩, ⟨.openParen, "(", 7, none⟩]
    (∀ token ∈ tokens, token.isWellFormed = true) ∧
      (readTokens .building tokens).result =
        .error (.fault (.located 3 .unopenedParenthesis)) ∧
      ∃ token, some 3 = some token.position ∧
        ImbalanceAt tokens token .unopenedParenthesis
          [⟨.operator .mul, "*", 5, none⟩, ⟨.openParen, "(", 7, none⟩] := by
  intro tokens
  have hformed : ∀ token ∈ tokens, token.isWellFormed = true := by decide
  have hresult : (readTokens .building tokens).result =
      .error (.fault (.located 3 .unopenedParenthesis)) := rfl
  exact ⟨hformed, hresult,
    (readTokens_judges_balance .building hformed).2.2 _ hresult rfl⟩

end InfixCalc
