import InfixCalc.Proofs.ReadFaults
import InfixCalc.Proofs.Recognition
import InfixCalc.Proofs.Tiling

/-!
# Which operator is blamed for a missing operand

An operator without a left operand is noticed when it is read, and is blamed itself.
The lack of a right operand is noticed when the group ends, and the operators that wait
are settled from the last one back.  Each takes two operands if there are two, no matter
where they stand.  So the operators pass the lack on towards the front, and it is the
first of them that finds one operand only.  It is blamed, and it lacks an operand itself
only if no other operator waits behind it.
-/

namespace InfixCalc

/-- The operator that is said to lack an operand. -/
def Cause.blamedOperator? : Cause → Option String
  | .missingLeftOperand operator => some operator
  | .missingOperand operator => some operator
  | _ => none

theorem Cause.exists_blamedOperator {cause : Cause}
    (hkind : cause.kind = .missingOperand) (hnames : cause ≠ .emptyParentheses) :
    ∃ name, cause.blamedOperator? = some name := by
  cases cause with
  | missingLeftOperand name | missingOperand name => exact ⟨name, rfl⟩
  | emptyParentheses => exact absurd rfl hnames
  | _ => cases hkind

/-- No operand ends with these tokens. -/
def LacksLeftOperand (before : List Token) : Prop :=
  ∀ former ∈ before.getLast?, former.kind.endsOperand = false

/-- A group ends in front of these tokens, or they are the end of all. -/
def EndsGroup (behind : List Token) : Prop :=
  ∀ latter ∈ behind.head?, latter.kind = .closeParen

/-- A group begins behind these tokens, or they are the start of all. -/
def StartsGroup (before : List Token) : Prop :=
  ∀ former ∈ before.getLast?, former.kind = .openParen

/-- An operator between these tokens lacks an operand on one of its sides. -/
def LacksOperand (before behind : List Token) : Prop :=
  LacksLeftOperand before ∨ EndsGroup behind

instance (before : List Token) : Decidable (LacksLeftOperand before) :=
  inferInstanceAs
    (Decidable (∀ former ∈ before.getLast?, former.kind.endsOperand = false))

instance (behind : List Token) : Decidable (EndsGroup behind) :=
  inferInstanceAs (Decidable (∀ latter ∈ behind.head?, latter.kind = .closeParen))

instance (before behind : List Token) : Decidable (LacksOperand before behind) :=
  inferInstanceAs (Decidable (_ ∨ _))

/-- The tokens break off behind an operator, and an operator in front of them that takes
right operands of this level waits for all of them. -/
def BreaksOff (level : Nat) (tokens : List Token) : Prop :=
  ∀ given, ∃ result, Derives true (.lacking level given result) tokens

/-- The tokens end with a left operand of the operator, and it is the first thing in its
group.  So no operator in front of it waits for anything. -/
def IsFirstWaiting (op : Op) (before : List Token) : Prop :=
  ∃ outside operand left, before = outside ++ operand ∧ StartsGroup outside ∧
    Derives true (.complete op.leftLevel left) operand

variable {tokens consumed : List Token} {nest : Nest} {fault : Fault}

/-! ## The operators that wait -/

theorem BreaksOff.endsGroup {level : Nat} {inside rest : List Token}
    (hinside : BreaksOff level inside) : ¬EndsGroup (inside ++ rest) := by
  obtain ⟨result, hderives⟩ := hinside (.number none)
  obtain ⟨first, more, role, rfl, hrole, hstarts⟩ := hderives.exists_first
  intro hends
  have hclosing : first.kind = .closeParen := hends first rfl
  have hstarting := (Token.startsOperand_of_role hrole).trans hstarts
  rw [hclosing] at hstarting
  cases hstarting

/-- One more frame: an operand and its operator, and nothing or more behind them. -/
theorem BreaksOff.frame {frame : Frame} {level : Nat} {operand rest : List Token}
    (hlevel : level ≤ frame.op.level)
    (hleft : Derives true (.complete frame.op.leftLevel frame.left) operand)
    (hrest : rest = [] ∨ BreaksOff frame.op.rightLevel rest) :
    BreaksOff level (operand ++ frame.token :: rest) := by
  intro given
  rcases hrest with rfl | hrest
  · exact ⟨_, .lastOperator frame.means hlevel hleft⟩
  · obtain ⟨result, hresult⟩ := hrest frame.left
    exact ⟨_, .furtherOperator frame.means hlevel hleft hresult⟩

/-- The tokens of the frames begin with the left operand of the oldest one and its
operator.  Its right operand breaks off, unless it has not begun. -/
theorem FramesRead.oldest {frame : Frame} {frames : List Frame} {level : Nat}
    (hframes : FramesRead true (frame :: frames) level tokens) :
    ∃ operand behind, tokens = operand ++ (oldest frame frames).token :: behind ∧
      Derives true
        (.complete (oldest frame frames).op.leftLevel (oldest frame frames).left)
        operand ∧
      ∀ rest, rest = [] ∨ BreaksOff level rest →
        behind ++ rest = [] ∨
          BreaksOff (oldest frame frames).op.rightLevel (behind ++ rest) := by
  -- The newest frame lengthens what comes behind the oldest one, so anything may
  -- follow.
  induction frames generalizing frame level tokens with
  | nil =>
      cases hframes with
      | @cons _ _ _ _ operand hnone hlevel hleft =>
          cases hnone
          exact ⟨operand, [], rfl, hleft, fun rest hrest => hrest⟩
  | cons next frames ih =>
      cases hframes with
      | @cons _ _ _ former operand hframes hlevel hleft =>
          obtain ⟨first, behind, rfl, hfirst, hbehind⟩ := ih hframes
          refine ⟨first, behind ++ (operand ++ [frame.token]), ?_, hfirst,
            fun rest hrest => ?_⟩
          · simp only [List.append_assoc, List.cons_append]
            rfl
          · have hmore := hbehind _ (.inr (BreaksOff.frame hlevel hleft hrest))
            rw [List.append_assoc, List.append_assoc, List.singleton_append]
            exact hmore

/-- Where no argument is finished yet, nothing stands between the open groups
and the frames. -/
theorem EnclosuresRead.startsGroup {outer : List Enclosure} {outside : List Token}
    (houter : EnclosuresRead outer outside) (hnone : innerArguments outer = []) :
    StartsGroup outside := by
  intro former hformer
  cases houter with
  | nil => cases hformer
  | @cons opener frames rest level outside around inside hrest hframes hopener =>
      obtain ⟨front, opening, rfl, hopening⟩ :
          ∃ front opening, inside = front ++ [opening] ∧
            opening.role? = some .opening := by
        cases hopener with
        | plain hopening => exact ⟨[], _, rfl, hopening⟩
        | call means hopening harguments =>
            obtain rfl : _ = [] := hnone
            cases harguments
            exact ⟨[_], _, rfl, hopening⟩
      rw [← List.append_assoc, ← List.append_assoc, List.getLast?_concat] at hformer
      cases hformer
      exact Token.kind_of_role hopening

/-! ## Blame -/

/-- The fault blames an operator among the tokens.  Either no operand ends in front of
it.  Or it is the first operator that waits in its group: its left operand begins the
group, and what stands behind it up to the end of the group is nothing or an operand
that breaks off behind another operator. -/
inductive BlamesOperator (fault : Fault) : List Token → Prop
  | unpreceded {blamed : Token} {op : Op} {before behind : List Token}
      (hoperator : blamed.role? = some (.operator op))
      (hfault : fault = .located blamed.position (.missingLeftOperand blamed.text))
      (hlacks : LacksLeftOperand before) :
      BlamesOperator fault (before ++ blamed :: behind)
  | unsettled {blamed : Token} {op : Op} {left : Expr}
      {outside operand inside rest : List Token}
      (hoperator : blamed.role? = some (.operator op))
      (hfault : fault = .located blamed.position (.missingOperand blamed.text))
      (hstarts : StartsGroup outside)
      (hleft : Derives true (.complete op.leftLevel left) operand)
      (hinside : inside = [] ∨ BreaksOff op.rightLevel inside)
      (hends : EndsGroup rest) :
      BlamesOperator fault (outside ++ operand ++ blamed :: (inside ++ rest))

theorem blamesOperator_of_settled (hnest : NestRead nest consumed)
    (hfocus : nest.focus.isFunction = false) (hsettled : nest.settled = .error fault)
    {rest : List Token} (hends : EndsGroup rest) :
    BlamesOperator fault (consumed ++ rest) := by
  obtain ⟨focus, frames, outer⟩ := nest
  obtain ⟨outside, level, read, latest, houter, hframes, hlatest, rfl⟩ := hnest
  cases focus with
  | function function fn means => cases hfocus
  | complete last => cases hsettled
  | operand =>
      obtain ⟨frame, frames, rfl, hnone, hfault⟩ := settled_eq_error hsettled
      obtain rfl : latest = [] := hlatest
      obtain ⟨operand, behind, rfl, hleft, hbehind⟩ := hframes.oldest
      have hinside := hbehind [] (.inl rfl)
      rw [List.append_nil] at hinside
      have hblames :
          BlamesOperator fault (outside ++ operand ++ _ :: (behind ++ rest)) :=
        .unsettled (oldest frame frames).means hfault (houter.startsGroup hnone)
          hleft hinside hends
      simpa only [List.append_assoc, List.append_nil, List.cons_append] using hblames

theorem closeWith_blames_no_operator {operands : List Expr} {outer : List Enclosure}
    {position : Int} (hclose : Nest.closeWith operands outer position = .error fault) :
    fault.cause.blamedOperator? = none := by
  unfold Nest.closeWith at hclose
  split at hclose
  · cases hclose
    rfl
  all_goals
    split at hclose <;> cases hclose
    all_goals rfl

theorem concludeWith_blames_no_operator {operands : List Expr} {outer : List Enclosure}
    (hconclude : Nest.concludeWith operands outer = .error fault) :
    fault.cause.blamedOperator? = none := by
  unfold Nest.concludeWith at hconclude
  split at hconclude
  · cases hconclude
    rfl
  · split at hconclude <;> cases hconclude
    all_goals rfl

section
variable {token : Token} {role : Role} {name : String} {rest : List Token}
  (hnest : NestRead nest consumed) (hnames : fault.cause.blamedOperator? = some name)
include hnest hnames

theorem blamesOperator_of_close (means : token.role? = some .closing)
    (hfocus : nest.focus.isFunction = false)
    (hclose : nest.close token.position = .error fault) :
    BlamesOperator fault (consumed ++ token :: rest) := by
  rcases close_eq_error hclose with hsettled | ⟨operands, -, hwith⟩
  · refine blamesOperator_of_settled hnest hfocus hsettled fun latter hlatter => ?_
    cases hlatter
    exact Token.kind_of_role means
  · rw [closeWith_blames_no_operator hwith] at hnames
    cases hnames

theorem blamesOperator_of_readOperand (hfollows : nest.focus.Follows consumed.getLast?)
    (hfocus : nest.focus = .operand) (means : token.role? = some role)
    (hread : nest.readOperand token role means = .error fault) :
    BlamesOperator fault (consumed ++ token :: rest) := by
  cases role with
  | operand expr => cases hread
  | function fn => cases hread
  | opening => cases hread
  | closing =>
      exact blamesOperator_of_close hnest hnames means (by rw [hfocus]; rfl) hread
  | operator op =>
      cases hread
      rw [hfocus] at hfollows
      refine .unpreceded means rfl fun former hformer => ?_
      obtain ⟨-, hends⟩ := hfollows
      rw [Option.mem_def.mp hformer] at hends
      exact hends

theorem blamesOperator_of_read (hfollows : nest.focus.Follows consumed.getLast?)
    (means : token.role? = some role)
    (hread : nest.read token role means = .error fault) :
    BlamesOperator fault (consumed ++ token :: rest) := by
  cases hfocus : nest.focus with
  | operand =>
      simp only [Nest.read, hfocus] at hread
      exact blamesOperator_of_readOperand hnest hnames hfollows hfocus means hread
  | function function fn known =>
      simp only [Nest.read, hfocus] at hread
      cases role <;> cases hread
      all_goals cases hnames
  | complete last =>
      simp only [Nest.read, hfocus] at hread
      rcases readBehind_eq_error hread with ⟨rfl, hclose⟩ | ⟨-, rfl⟩
      · exact blamesOperator_of_close hnest hnames means (by rw [hfocus]; rfl) hclose
      · cases hnames

theorem blamesOperator_of_finish (hfinish : nest.finish = .error fault) :
    BlamesOperator fault consumed := by
  rcases finish_eq_error hfinish with ⟨function, fn, means, -, rfl⟩ |
    ⟨hfocus, hsettled | ⟨operands, -, hconclude⟩⟩
  · cases hnames
  · have hnone : EndsGroup [] := nofun
    have hblames := blamesOperator_of_settled hnest hfocus hsettled hnone
    rwa [List.append_nil] at hblames
  · rw [concludeWith_blames_no_operator hconclude] at hnames
    cases hnames

end

/-- A fault that names an operator blames the one it lies at, whether the reader
folds or builds. -/
theorem blamesOperator_of_readTokens {mode : Mode} {name : String}
    (hformed : ∀ token ∈ tokens, token.isWellFormed = true)
    (hresult : (readTokens mode tokens).result = .error (.fault fault))
    (hnames : fault.cause.blamedOperator? = some name) :
    BlamesOperator fault tokens := by
  rcases exists_run_of_fault hformed hresult with ⟨last, hrun, hfinish⟩ |
    ⟨consumed, token, rest, nest, role, means, rfl, hrun, hread⟩
  · exact blamesOperator_of_finish (nestRead_start.run hrun) hnames hfinish
  · have hfollows := hrun.follows follows_start
    rw [Option.or_none] at hfollows
    exact blamesOperator_of_read (nestRead_start.run hrun) hnames hfollows means hread

theorem not_lacksLeftOperand {lenient : Bool} {level : Nat} {expr : Expr}
    {operand : List Token} (hoperand : Derives lenient (.complete level expr) operand)
    (outside : List Token) : ¬LacksLeftOperand (outside ++ operand) := by
  obtain ⟨front, last, role, rfl, hrole, hends⟩ := hoperand.exists_last rfl
  intro hlacks
  have hlast : last.kind.endsOperand = false := hlacks last (by simp)
  rw [Token.endsOperand_of_role hrole, hends] at hlast
  cases hlast

/-- Where a text is not read because an operator lacks an operand, and the fault says
which, it lies at an operator of the text.  If it is said to lack its left operand, then
none ends in front of it.  Otherwise it is the first operator of its group that waits:
its left operand is there and begins the group.  It lacks an operand exactly if its
group ends behind it.  If it does not, then both its operands are there, and it is
another operator behind it that has nothing on its right. -/
theorem readText_blames_first_waiting {mode : Mode} {text : String}
    (hfails : readText mode text = .error (.fault fault))
    (hkind : fault.cause.kind = .missingOperand)
    (hnames : fault.cause ≠ .emptyParentheses) :
    ∃ before blamed op behind, scan text.toList = .ok (before ++ blamed :: behind) ∧
      blamed.role? = some (.operator op) ∧ fault.position = some blamed.position ∧
      (fault.cause = .missingLeftOperand blamed.text ∧ LacksLeftOperand before ∨
        fault.cause = .missingOperand blamed.text ∧ ¬LacksLeftOperand before ∧
          IsFirstWaiting op before ∧ ∃ inside rest, behind = inside ++ rest ∧
            EndsGroup rest ∧ (inside = [] ∨ BreaksOff op.rightLevel inside) ∧
            (LacksOperand before behind ↔ inside = [])) := by
  obtain ⟨name, hname⟩ := Cause.exists_blamedOperator hkind hnames
  unfold readText at hfails
  cases htokens : tokenize text with
  | error found =>
      rw [htokens] at hfails
      cases hfails
      have hscanning : fault.IsOfScanning := isOfScanning_of_scan htokens
      rw [Fault.IsOfScanning, hkind] at hscanning
      exact absurd hscanning (by decide)
  | ok tokens =>
      rw [htokens] at hfails
      have hformed := (scan_eq_ok_iff.mp htokens).isWellFormed
      cases blamesOperator_of_readTokens hformed hfails hname with
      | unpreceded hoperator hfault hlacks =>
          subst hfault
          exact ⟨_, _, _, _, htokens, hoperator, rfl, .inl ⟨rfl, hlacks⟩⟩
      | @unsettled _ _ left outside operand _ _ hoperator hfault hstarts hleft
            hinside hends =>
          subst hfault
          have hpreceded := not_lacksLeftOperand hleft outside
          have hfirst : IsFirstWaiting _ (outside ++ operand) :=
            ⟨outside, operand, left, rfl, hstarts, hleft⟩
          refine ⟨_, _, _, _, htokens, hoperator, rfl,
            .inr ⟨rfl, hpreceded, hfirst, _, _, rfl, hends, hinside,
              fun hlacks => ?_, ?_⟩⟩
          · exact hinside.resolve_right fun hbreaks =>
              hbreaks.endsGroup (hlacks.resolve_left hpreceded)
          · rintro rfl
            exact .inr hends

theorem difference_before_power_is_blamed :
    let fault : Fault := .located 9 (.missingOperand "-")
    readText .building "min(1, (3-4^))" = .error (.fault fault) ∧
      ∃ before blamed op behind,
        scan "min(1, (3-4^))".toList = .ok (before ++ blamed :: behind) ∧
          blamed.role? = some (.operator op) ∧ some 9 = some blamed.position ∧
            ¬LacksLeftOperand before ∧ IsFirstWaiting op before := by
  intro fault
  have hfails : readText .building "min(1, (3-4^))" = .error (.fault fault) := by
    decide +kernel
  obtain ⟨before, blamed, op, behind, htokens, hoperator, hposition, hlacks | hwaits⟩ :=
    readText_blames_first_waiting hfails rfl nofun
  · cases hlacks.1
  · exact ⟨hfails, before, blamed, op, behind, htokens, hoperator, hposition,
      hwaits.2.1, hwaits.2.2.1⟩

/-- The product takes the operand of the sum, which is blamed in its place. -/
theorem sum_before_lacking_product_is_blamed :
    let fault : Fault := .located 1 (.missingOperand "+")
    let two : Token := ⟨.number, "2", 0, some 2⟩
    let plus : Token := ⟨.operator .add, "+", 1, none⟩
    let three : Token := ⟨.number, "3", 2, some 3⟩
    let times : Token := ⟨.operator .mul, "*", 3, none⟩
    readText .building "2+3*" = .error (.fault fault) ∧
      readText (.folding Head.apply) "2+3*" = .error (.fault fault) ∧
      scan "2+3*".toList = .ok ([two] ++ plus :: [three, times]) ∧
      ¬LacksOperand [two] [three, times] ∧ LacksOperand [two, plus, three] [] := by
  intro fault two plus three times
  have htokens : scan "2+3*".toList = .ok [two, plus, three, times] := by decide +kernel
  have hbuilt : readText .building "2+3*" = .error (.fault fault) := by decide +kernel
  have hfolded : readText (.folding Head.apply) "2+3*" = .error (.fault fault) := by
    decide +kernel
  exact ⟨hbuilt, hfolded, htokens, by decide, by decide⟩

end InfixCalc
