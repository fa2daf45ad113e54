import InfixCalc.Proofs.FoldingAgreement
import InfixCalc.Proofs.NestRuns

/-!
# Which token a fault is about

Everything that waits in a nest was put there by a token that has been read: an
operator, a function, or the parenthesis of a group.  So a fault lies at a token, and
the token is of the kind that the fault complains about.  Only the lack of any token
has no place.  A plain group never holds more than one operand, and neither does what
is outside all groups.
-/

namespace InfixCalc

/-! ## Blame -/

/-- The fault lies at one of the tokens, and the token is of this sort. -/
def Fault.LiesAt (fault : Fault) (tokens : List Token) (sort : Token → Prop) : Prop :=
  ∃ token ∈ tokens, sort token ∧ fault.position = some token.position

/-- The fault is about one of these tokens, and what it says is said of that token. -/
def Fault.Blames (fault : Fault) (tokens : List Token) : Prop :=
  match fault.cause with
  | .notCalled name none =>
    fault.LiesAt tokens fun token => token.kind = .function ∧ token.text = name
  | .notCalled name (some found) =>
    (∃ function ∈ tokens, function.kind = .function ∧ function.text = name) ∧
      fault.LiesAt tokens fun token => token.text = found
  | .adjacentOperands found =>
    fault.LiesAt tokens fun latter => latter.text = found ∧
      latter.kind.startsOperand = true ∧
      ∃ before former behind, tokens = before ++ former :: latter :: behind ∧
        former.kind.endsOperand = true
  | .missingLeftOperand operator | .missingOperand operator =>
    fault.LiesAt tokens fun token =>
      token.kind.isOperator = true ∧ token.text = operator
  | .unopenedParenthesis => fault.LiesAt tokens fun token => token.kind = .closeParen
  | .unclosedParenthesis | .emptyParentheses =>
    fault.LiesAt tokens fun token => token.kind = .openParen
  | .wrongArgumentCount fn _ =>
    fault.LiesAt tokens fun token => token.role? = some (.function fn)
  | _ => False

/-! ## Where a nest comes from -/

def FramesFrom (tokens : List Token) (frames : List Frame) : Prop :=
  ∀ frame ∈ frames, frame.token ∈ tokens

/-- The parenthesis that opened the group is one of the tokens, and so is the function
in front of it. -/
def Opener.IsFrom (tokens : List Token) (opener : Opener) : Prop :=
  (∃ opening ∈ tokens, opening.kind = .openParen ∧ opening.position = opener.position) ∧
    ∀ function fn means position arguments,
      opener = .call function fn means position arguments → function ∈ tokens

/-- Everything that waits in the nest was put there by one of the tokens. -/
structure Nest.IsFrom (tokens : List Token) (nest : Nest) : Prop where
  focus : ∀ function fn means, nest.focus = .function function fn means →
    function ∈ tokens
  frames : FramesFrom tokens nest.frames
  outer : ∀ enclosure ∈ nest.outer,
    enclosure.opener.IsFrom tokens ∧ FramesFrom tokens enclosure.frames

variable {tokens : List Token} {nest next : Nest} {token : Token} {role : Role}

theorem isFrom_start (tokens : List Token) : Nest.start.IsFrom tokens :=
  ⟨nofun, nofun, nofun⟩

theorem oldest_mem (frame : Frame) (frames : List Frame) :
    oldest frame frames ∈ frame :: frames := by
  induction frames generalizing frame with
  | nil => exact List.mem_cons_self
  | cons next frames ih => exact List.mem_cons_of_mem _ (ih next)

/-! ## Steps -/

theorem isFrom_of_closeWith {operands : List Expr} {outer : List Enclosure}
    {position : Int}
    (houter : ∀ enclosure ∈ outer,
      enclosure.opener.IsFrom tokens ∧ FramesFrom tokens enclosure.frames)
    (hclose : Nest.closeWith operands outer position = .ok next) :
    next.IsFrom tokens := by
  unfold Nest.closeWith at hclose
  split at hclose
  · cases hclose
  all_goals
    obtain ⟨⟨-, haround⟩, hrest⟩ := List.forall_mem_cons.mp houter
    split at hclose <;> cases hclose
    exact ⟨nofun, haround, hrest⟩

theorem isFrom_of_close {position : Int} (hnest : nest.IsFrom tokens)
    (hclose : nest.close position = .ok next) : next.IsFrom tokens := by
  obtain ⟨operands, -, hwith⟩ := close_eq_ok hclose
  exact isFrom_of_closeWith hnest.outer hwith

theorem isFrom_of_readOperand (hnest : nest.IsFrom tokens) (hmem : token ∈ tokens)
    (means : token.role? = some role)
    (hread : nest.readOperand token role means = .ok next) : next.IsFrom tokens := by
  cases role with
  | operand expr =>
      cases hread
      exact ⟨nofun, hnest.frames, hnest.outer⟩
  | function fn =>
      cases hread
      refine ⟨fun function fn means hfocus => ?_, hnest.frames, hnest.outer⟩
      cases hfocus
      exact hmem
  | opening =>
      cases hread
      have hopening : (Opener.plain token.position).IsFrom tokens :=
        ⟨⟨token, hmem, Token.kind_of_role means, rfl⟩, nofun⟩
      exact ⟨nofun, nofun,
        List.forall_mem_cons.mpr ⟨⟨hopening, hnest.frames⟩, hnest.outer⟩⟩
  | operator op => cases hread
  | closing => exact isFrom_of_close hnest hread

theorem isFrom_of_nextArgument {last : Expr} (hnest : nest.IsFrom tokens)
    (hnext : nest.nextArgument? last = some next) : next.IsFrom tokens := by
  obtain ⟨focus, frames, outer⟩ := nest
  match outer, hnext with
  | ⟨.call function fn means position arguments, around⟩ :: rest, hnext =>
      cases hnext
      obtain ⟨⟨⟨hopening, hfunction⟩, haround⟩, hrest⟩ :=
        List.forall_mem_cons.mp hnest.outer
      refine ⟨nofun, nofun, List.forall_mem_cons.mpr ⟨⟨⟨hopening, ?_⟩, haround⟩, hrest⟩⟩
      intro found _ _ _ _ hopener
      cases hopener
      exact hfunction _ _ _ _ _ rfl

theorem isFrom_of_read (hnest : nest.IsFrom tokens) (hmem : token ∈ tokens)
    (means : token.role? = some role) (hread : nest.read token role means = .ok next) :
    next.IsFrom tokens := by
  obtain ⟨focus, frames, outer⟩ := nest
  cases focus with
  | operand => exact isFrom_of_readOperand hnest hmem means hread
  | function function fn known =>
      cases role <;> cases hread
      have hopening :
          (Opener.call function fn known token.position []).IsFrom tokens := by
        refine ⟨⟨token, hmem, Token.kind_of_role means, rfl⟩,
          fun found _ _ _ _ hopener => ?_⟩
        cases hopener
        exact hnest.focus _ _ _ rfl
      exact ⟨nofun, nofun,
        List.forall_mem_cons.mpr ⟨⟨hopening, hnest.frames⟩, hnest.outer⟩⟩
  | complete last =>
      change Nest.readBehind _ last token role means = .ok next at hread
      rcases Nest.readBehind_eq_ok hread with
        ⟨op, known, rfl, rfl⟩ | ⟨rfl, hclose⟩ | ⟨between, hbetween, hoperand⟩
      · refine ⟨nofun, List.forall_mem_cons.mpr ⟨hmem, fun frame hframe => ?_⟩,
          hnest.outer⟩
        exact hnest.frames frame ((List.dropWhile_sublist _).mem hframe)
      · exact isFrom_of_close hnest hclose
      · exact isFrom_of_readOperand (isFrom_of_nextArgument hnest hbetween) hmem
          means hoperand

/-- A run over some of the tokens leaves nothing behind that is not from them. -/
theorem Nest.Run.isFrom {last : Nest} {consumed : List Token}
    (hrun : Nest.Run nest consumed last) (hsubset : consumed ⊆ tokens)
    (hnest : nest.IsFrom tokens) : last.IsFrom tokens := by
  induction hrun with
  | nil => exact hnest
  | cons means hread _ ih =>
      obtain ⟨hmem, hrest⟩ := List.cons_subset.mp hsubset
      exact ih hrest (isFrom_of_read hnest hmem means hread)

/-- The last token of a run is what the next one follows. -/
theorem Nest.Run.follows {last : Nest} {consumed : List Token} {previous : Option Token}
    (hrun : Nest.Run nest consumed last) (hfollows : nest.focus.Follows previous) :
    last.focus.Follows (consumed.getLast?.or previous) := by
  induction hrun generalizing previous with
  | nil => exact hfollows
  | cons means hread _ ih =>
      have hlast := ih (follows_of_read means hread)
      rw [List.getLast?_cons]
      rwa [Option.or_some] at hlast

/-! ## Faults of a step -/

/-- Outside the arguments of calls everything is joined to one operand. -/
theorem settled_of_noArguments {operands : List Expr}
    (hnone : innerArguments nest.outer = []) (hsettled : nest.settled = .ok operands) :
    operands = [] ∨ ∃ expr, operands = [expr] := by
  obtain ⟨focus, frames, outer⟩ := nest
  simp only [Nest.settled, hnone] at hsettled
  split at hsettled <;> cases hsettled
  · exact .inr ⟨_, rfl⟩
  · exact .inl rfl
  · rename_i hcons
    cases hcons

/-- Operators without a last operand are settled by a finished argument. Without one the
oldest of them is blamed. -/
theorem settled_eq_error {fault : Fault} (hsettled : nest.settled = .error fault) :
    ∃ frame frames, nest.frames = frame :: frames ∧ innerArguments nest.outer = [] ∧
      fault = .located (oldest frame frames).token.position
        (.missingOperand (oldest frame frames).token.text) := by
  simp only [Nest.settled] at hsettled
  split at hsettled <;> cases hsettled
  exact ⟨_, _, ‹_›, ‹_›, rfl⟩

theorem settled_bind_eq_error {α : Type} {fault : Fault}
    {next : List Expr → Except Fault α}
    (hbound : nest.settled.bind next = .error fault) :
    nest.settled = .error fault ∨
      ∃ operands, nest.settled = .ok operands ∧ next operands = .error fault := by
  cases hsettled : nest.settled with
  | error found =>
      rw [hsettled] at hbound
      cases hbound
      exact .inl rfl
  | ok operands =>
      rw [hsettled] at hbound
      exact .inr ⟨operands, rfl, hbound⟩

/-- A group is not closed if its operands cannot be settled, or if they do
not fit it. -/
theorem close_eq_error {fault : Fault} {position : Int}
    (hclose : nest.close position = .error fault) :
    nest.settled = .error fault ∨ ∃ operands, nest.settled = .ok operands ∧
      Nest.closeWith operands nest.outer position = .error fault :=
  settled_bind_eq_error hclose

/-- Behind an operand reading fails at the end of a group, or because another operand
comes. -/
theorem readBehind_eq_error {fault : Fault} {last : Expr}
    {means : token.role? = some role}
    (hread : nest.readBehind last token role means = .error fault) :
    role = .closing ∧ nest.close token.position = .error fault ∨
      role.startsOperand = true ∧
        fault = .located token.position (.adjacentOperands token.text) := by
  cases role with
  | operator op => cases hread
  | closing => exact .inl ⟨rfl, hread⟩
  | operand expr | function fn | opening =>
      rw [Nest.readBehind_of_starts _ _ means rfl] at hread
      split at hread <;> cases hread
      exact .inr ⟨rfl, rfl⟩

theorem blames_of_settled {fault : Fault} (hnest : nest.IsFrom tokens)
    (hsettled : nest.settled = .error fault) : fault.Blames tokens := by
  obtain ⟨frame, frames, hframes, -, rfl⟩ := settled_eq_error hsettled
  have hoperator : (oldest frame frames).token.kind.isOperator = true :=
    Token.isOperator_of_role (oldest frame frames).means
  have hmem : oldest frame frames ∈ nest.frames := hframes ▸ oldest_mem frame frames
  exact ⟨_, hnest.frames _ hmem, ⟨hoperator, rfl⟩, rfl⟩

/-- What is said of a group lies at the parenthesis that opened it. -/
theorem liesAt_opener {opener : Opener} (hopener : opener.IsFrom tokens)
    (cause : Cause) :
    (Fault.located opener.position cause).LiesAt tokens fun token =>
      token.kind = .openParen := by
  obtain ⟨⟨opening, hmem, hkind, hposition⟩, -⟩ := hopener
  exact ⟨opening, hmem, hkind, congrArg some hposition.symm⟩

theorem blames_of_close {fault : Fault} (hnest : nest.IsFrom tokens)
    (hmem : token ∈ tokens) (hclosing : token.kind = .closeParen)
    (hclose : nest.close token.position = .error fault) : fault.Blames tokens := by
  rcases close_eq_error hclose with hsettled | ⟨operands, hsettled, hclose⟩
  · exact blames_of_settled hnest hsettled
  · have hopeners := hnest.outer
    cases houter : nest.outer with
    | nil =>
        rw [houter] at hclose
        cases hclose
        exact ⟨token, hmem, hclosing, rfl⟩
    | cons enclosure rest =>
        rw [houter] at hclose hopeners
        obtain ⟨⟨hopener, -⟩, -⟩ := List.forall_mem_cons.mp hopeners
        obtain ⟨start | ⟨function, fn, means, start, arguments⟩, around⟩ := enclosure
        · have hnone : innerArguments nest.outer = [] := by
            rw [houter]
            rfl
          rcases settled_of_noArguments hnone hsettled with rfl | ⟨expr, rfl⟩ <;>
            cases hclose
          exact liesAt_opener hopener _
        · simp only [Nest.closeWith] at hclose
          split at hclose <;> cases hclose
          exact ⟨function, hopener.2 _ _ _ _ _ rfl, means, rfl⟩

theorem blames_of_readOperand {fault : Fault} (hnest : nest.IsFrom tokens)
    (hmem : token ∈ tokens) (means : token.role? = some role)
    (hread : nest.readOperand token role means = .error fault) :
    fault.Blames tokens := by
  cases role with
  | operator op =>
      cases hread
      exact ⟨token, hmem, ⟨Token.isOperator_of_role means, rfl⟩, rfl⟩
  | closing => exact blames_of_close hnest hmem (Token.kind_of_role means) hread
  | operand expr => cases hread
  | function fn => cases hread
  | opening => cases hread

/-- Where reading a token fails, the fault is about a token read so far. -/
theorem blames_of_read {fault : Fault} (hnest : nest.IsFrom tokens)
    (hmem : token ∈ tokens)
    (hbefore : ∀ last, nest.focus = .complete last →
      ∃ before former behind, tokens = before ++ former :: token :: behind ∧
        former.kind.endsOperand = true)
    (means : token.role? = some role)
    (hread : nest.read token role means = .error fault) : fault.Blames tokens := by
  obtain ⟨focus, frames, outer⟩ := nest
  cases focus with
  | operand => exact blames_of_readOperand hnest hmem means hread
  | function function fn known =>
      have hfunction := hnest.focus _ _ _ rfl
      have hkind := (Token.kind_of_role known).1
      cases role <;> cases hread
      all_goals exact ⟨⟨function, hfunction, hkind, rfl⟩, token, hmem, rfl, rfl⟩
  | complete last =>
      change Nest.readBehind _ last token role means = .error fault at hread
      rcases readBehind_eq_error hread with ⟨rfl, hclose⟩ | ⟨hstarts, rfl⟩
      · exact blames_of_close hnest hmem (Token.kind_of_role means) hclose
      · have hkind := (Token.startsOperand_of_role means).trans hstarts
        exact ⟨token, hmem, ⟨rfl, hkind, hbefore last rfl⟩, rfl⟩

/-! ## Faults at the end -/

/-- Nothing has been read and nothing waits. -/
def Nest.IsBlank (nest : Nest) : Prop :=
  nest.focus = .operand ∧ nest.frames = [] ∧ nest.outer = []

theorem not_isBlank_of_close {position : Int}
    (hclose : nest.close position = .ok next) : ¬next.IsBlank := by
  rintro ⟨hfocus, -, -⟩
  obtain ⟨operands, -, hwith⟩ := close_eq_ok hclose
  obtain ⟨expr, hcomplete⟩ := closeWith_focus hwith
  rw [hcomplete] at hfocus
  cases hfocus

theorem not_isBlank_of_readOperand (means : token.role? = some role)
    (hread : nest.readOperand token role means = .ok next) : ¬next.IsBlank := by
  cases role with
  | operand expr => cases hread; exact nofun
  | function fn => cases hread; exact nofun
  | opening => cases hread; exact nofun
  | operator op => cases hread
  | closing => exact not_isBlank_of_close hread

/-- Whatever is read leaves something behind. -/
theorem not_isBlank_of_read (means : token.role? = some role)
    (hread : nest.read token role means = .ok next) : ¬next.IsBlank := by
  obtain ⟨focus, frames, outer⟩ := nest
  cases focus with
  | operand => exact not_isBlank_of_readOperand means hread
  | function function fn known =>
      cases role <;> cases hread
      exact nofun
  | complete last =>
      change Nest.readBehind _ last token role means = .ok next at hread
      rcases Nest.readBehind_eq_ok hread with
        ⟨op, known, rfl, rfl⟩ | ⟨rfl, hclose⟩ | ⟨between, -, hoperand⟩
      · exact nofun
      · exact not_isBlank_of_close hclose
      · exact not_isBlank_of_readOperand means hoperand

theorem Nest.Run.eq_nil_of_isBlank {last : Nest} {consumed : List Token}
    (hrun : Nest.Run nest consumed last) (hblank : last.IsBlank) : consumed = [] := by
  induction hrun with
  | nil => rfl
  | @cons nest next last token role consumed means hread hrest ih =>
      have hnone := ih hblank
      subst hnone
      cases hrest
      exact absurd hblank (not_isBlank_of_read means hread)

theorem isBlank_of_settled (hfocus : nest.focus.isFunction = false)
    (houter : nest.outer = []) (hsettled : nest.settled = .ok []) : nest.IsBlank := by
  obtain ⟨focus, frames, outer⟩ := nest
  cases houter
  cases focus with
  | function token fn means => cases hfocus
  | complete last => cases hsettled
  | operand =>
      cases frames with
      | nil => exact ⟨rfl, rfl, rfl⟩
      | cons frame frames => cases hsettled

theorem blames_of_concludeWith {fault : Fault} {operands : List Expr}
    (hnest : nest.IsFrom tokens) (hfocus : nest.focus.isFunction = false)
    (hsettled : nest.settled = .ok operands)
    (hconclude : Nest.concludeWith operands nest.outer = .error fault) :
    fault.Blames tokens ∨ nest.IsBlank ∧ fault = ⟨.emptyExpression, none⟩ := by
  have hopeners := hnest.outer
  cases houter : nest.outer with
  | cons enclosure rest =>
      rw [houter] at hconclude hopeners
      cases hconclude
      obtain ⟨⟨hopener, -⟩, -⟩ := List.forall_mem_cons.mp hopeners
      exact .inl (liesAt_opener hopener _)
  | nil =>
      have hnone : innerArguments nest.outer = [] := by
        rw [houter]
        rfl
      rw [houter] at hconclude
      rcases settled_of_noArguments hnone hsettled with rfl | ⟨expr, rfl⟩ <;>
        cases hconclude
      exact .inr ⟨isBlank_of_settled hfocus houter hsettled, rfl⟩

/-- The tokens may not end behind a function.  Elsewhere their end is refused
if the operands of the innermost group cannot be settled, or if they are not
the whole expression. -/
theorem finish_eq_error {fault : Fault} (hfinish : nest.finish = .error fault) :
    (∃ function fn means, nest.focus = .function function fn means ∧
        fault = .located function.position (.notCalled function.text none)) ∨
      nest.focus.isFunction = false ∧ (nest.settled = .error fault ∨
        ∃ operands, nest.settled = .ok operands ∧
          Nest.concludeWith operands nest.outer = .error fault) := by
  unfold Nest.finish at hfinish
  cases hfocus : nest.focus with
  | function function fn means =>
      rw [hfocus] at hfinish
      cases hfinish
      exact .inl ⟨function, fn, means, rfl, rfl⟩
  | operand | complete last =>
      rw [hfocus] at hfinish
      exact .inr ⟨rfl, settled_bind_eq_error hfinish⟩

/-- At the end of the tokens a fault is about one of them, unless nothing was read. -/
theorem blames_of_finish {fault : Fault} (hnest : nest.IsFrom tokens)
    (hfinish : nest.finish = .error fault) :
    fault.Blames tokens ∨ nest.IsBlank ∧ fault = ⟨.emptyExpression, none⟩ := by
  rcases finish_eq_error hfinish with ⟨function, fn, means, hfocus, rfl⟩ |
    ⟨hfocus, hsettled | ⟨operands, hsettled, hconclude⟩⟩
  · have hkind := (Token.kind_of_role means).1
    exact .inl ⟨function, hnest.focus _ _ _ hfocus, ⟨hkind, rfl⟩, rfl⟩
  · exact .inl (blames_of_settled hnest hsettled)
  · exact blames_of_concludeWith hnest hfocus hsettled hconclude

/-! ## Faults of a reading -/

/-- A fault in reading tokens is that of a step, or that of their end. -/
theorem exists_run_of_fault {mode : Mode} {fault : Fault}
    (hformed : ∀ token ∈ tokens, token.isWellFormed = true)
    (hresult : (readTokens mode tokens).result = .error (.fault fault)) :
    (∃ last, Nest.Run .start tokens last ∧ last.finish = .error fault) ∨
      ∃ consumed token rest nest role, ∃ means : token.role? = some role,
        tokens = consumed ++ token :: rest ∧ Nest.Run .start consumed nest ∧
          nest.read token role means = .error fault := by
  rw [readTokens_eq_error_iff mode hformed] at hresult
  rcases Nest.run_or_fault .start hformed with ⟨last, hrun⟩ |
    ⟨consumed, token, rest, nest, role, means, found, rfl, hrun, hread⟩
  · rw [readTokens_of_run hrun] at hresult
    cases hfinish : last.finish with
    | ok expr =>
        rw [hfinish] at hresult
        cases hresult
    | error found =>
        rw [hfinish] at hresult
        cases hresult
        exact .inl ⟨last, hrun, hfinish⟩
  · rw [readTokens_of_fault hrun means hread] at hresult
    cases hresult
    exact .inr ⟨consumed, token, rest, nest, role, means, rfl, hrun, hread⟩

/-- A fault in reading tokens is about one of them, or there are none. -/
theorem blames_of_readTokens (mode : Mode) {fault : Fault}
    (hformed : ∀ token ∈ tokens, token.isWellFormed = true)
    (hresult : (readTokens mode tokens).result = .error (.fault fault)) :
    fault.Blames tokens ∨ tokens = [] ∧ fault = ⟨.emptyExpression, none⟩ := by
  rcases exists_run_of_fault hformed hresult with ⟨last, hrun, hfinish⟩ |
    ⟨consumed, token, rest, nest, role, means, rfl, hrun, hread⟩
  · have hlast := hrun.isFrom (List.Subset.refl _) (isFrom_start tokens)
    refine (blames_of_finish hlast hfinish).imp id fun ⟨hblank, hempty⟩ => ?_
    exact ⟨hrun.eq_nil_of_isBlank hblank, hempty⟩
  · have hnest : nest.IsFrom (consumed ++ token :: rest) :=
      hrun.isFrom (List.subset_append_left _ _) (isFrom_start _)
    have hmem : token ∈ consumed ++ token :: rest :=
      List.mem_append_right _ List.mem_cons_self
    refine .inl (blames_of_read hnest hmem (fun last hfocus => ?_) means hread)
    have hfollows := hrun.follows follows_start
    rw [hfocus, Option.or_none] at hfollows
    obtain ⟨former, hformer, hends⟩ := Option.any_eq_true _ _ |>.mp hfollows.2
    obtain ⟨before, rfl⟩ := List.getLast?_eq_some_iff.mp hformer
    exact ⟨before, former, rest, by simp, hends⟩

end InfixCalc
