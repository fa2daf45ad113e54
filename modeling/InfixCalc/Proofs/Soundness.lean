import InfixCalc.Proofs.NestRuns

/-!
# What is read is derived by the grammar

The tokens a nest has read fall into pieces, one for every frame, argument and
opener, and the lenient grammar derives each piece.  Reading one more token keeps
this.  Two neighbouring frames fit together: the later one is an operator that may
stand in the right operand of the earlier one.
-/

namespace InfixCalc

/-- The frames have read these tokens, and their right operand may be a phrase of this
level. -/
inductive FramesRead (lenient : Bool) : List Frame → Nat → List Token → Prop
  | nil : FramesRead lenient [] exprLevel []
  | cons {frame : Frame} {frames : List Frame} {level : Nat}
      {tokens operand : List Token} (hframes : FramesRead lenient frames level tokens)
      (hlevel : level ≤ frame.op.level)
      (hleft : Derives lenient (.complete frame.op.leftLevel frame.left) operand) :
      FramesRead lenient (frame :: frames) frame.op.rightLevel
        (tokens ++ (operand ++ [frame.token]))

/-- The arguments, latest first, have read these tokens. -/
inductive ArgumentsRead : List Expr → List Token → Prop
  | nil : ArgumentsRead [] []
  | cons {argument : Expr} {arguments : List Expr} {tokens operand : List Token}
      (harguments : ArgumentsRead arguments tokens)
      (hargument : Derives true (.complete exprLevel argument) operand) :
      ArgumentsRead (argument :: arguments) (tokens ++ operand)

inductive OpenerRead : Opener → List Token → Prop
  | plain {opening : Token} {position : Int}
      (hopening : opening.role? = some .opening) :
      OpenerRead (.plain position) [opening]
  | call {function opening : Token} {fn : Fn} {position : Int} {arguments : List Expr}
      {tokens : List Token} (means : function.role? = some (.function fn))
      (hopening : opening.role? = some .opening)
      (harguments : ArgumentsRead arguments tokens) :
      OpenerRead (.call function fn means position arguments)
        (function :: opening :: tokens)

inductive EnclosuresRead : List Enclosure → List Token → Prop
  | nil : EnclosuresRead [] []
  | cons {opener : Opener} {frames : List Frame} {rest : List Enclosure} {level : Nat}
      {outside around inside : List Token} (hrest : EnclosuresRead rest outside)
      (hframes : FramesRead true frames level around)
      (hopener : OpenerRead opener inside) :
      EnclosuresRead (⟨opener, frames⟩ :: rest) (outside ++ (around ++ inside))

def FocusRead (focus : Focus) (tokens : List Token) : Prop :=
  match focus with
  | .operand => tokens = []
  | .function token _ _ => tokens = [token]
  | .complete expr => Derives true (.complete operandLevel expr) tokens

/-- The nest has read these tokens. -/
def NestRead (nest : Nest) (tokens : List Token) : Prop :=
  ∃ outside level inside latest, EnclosuresRead nest.outer outside ∧
    FramesRead true nest.frames level inside ∧ FocusRead nest.focus latest ∧
      tokens = outside ++ (inside ++ latest)

/-! ## Joining frames -/

/-- An operator takes what the frames that yield to it make of the operand in front. -/
theorem FramesRead.operator {lenient : Bool} {frames : List Frame} {level : Nat}
    {tokens : List Token} (hframes : FramesRead lenient frames level tokens) (op : Op)
    {above : Nat} {last : Expr} {operand : List Token} (hlevel : level ≤ above)
    (hoperand : op.leftLevel ≤ above)
    (hlast : Derives lenient (.complete above last) operand) :
    ∃ kept before after,
      FramesRead lenient (frames.dropWhile fun frame => frame.op.leftFirst op)
        kept before ∧ kept ≤ op.level ∧
        Derives lenient (.complete op.leftLevel
          (joinAll (frames.takeWhile fun frame => frame.op.leftFirst op) last)) after ∧
        tokens ++ operand = before ++ after := by
  induction hframes generalizing above last operand with
  | nil =>
      exact ⟨exprLevel, [], operand, .nil, op.exprLevel_le_level,
        hlast.weaken hoperand, rfl⟩
  | @cons frame frames level tokens lefts hframes hbelow hleft ih =>
      cases hfirst : frame.op.leftFirst op with
      | false =>
          refine ⟨frame.op.rightLevel, _, operand, ?_, ?_, ?_, rfl⟩
          · rw [List.dropWhile_cons_of_neg (by simp [hfirst])]
            exact .cons hframes hbelow hleft
          · exact (Op.leftFirst_eq_false_iff _ _).mp hfirst
          · rw [List.takeWhile_cons_of_neg (by simp [hfirst])]
            exact hlast.weaken hoperand
      | true =>
          have hjoined := Derives.operation frame.means hleft (hlast.weaken hlevel)
          obtain ⟨kept, before, after, hkept, hprecedence, hafter, htokens⟩ :=
            ih hbelow ((Op.leftFirst_iff _ _).mp hfirst) hjoined
          refine ⟨kept, before, after, ?_, hprecedence, ?_, ?_⟩
          · simpa only [List.dropWhile_cons, hfirst, if_true] using hkept
          · simp only [List.takeWhile_cons, hfirst, if_true]
            exact hafter
          · rw [← htokens]
            simp only [List.append_assoc, List.singleton_append]

/-- The frames and an operand behind them are an expression. -/
theorem FramesRead.complete {lenient : Bool} {frames : List Frame} {level : Nat}
    {tokens : List Token} (hframes : FramesRead lenient frames level tokens)
    {above : Nat} {last : Expr} {operand : List Token} (hlevel : level ≤ above)
    (hlast : Derives lenient (.complete above last) operand) :
    Derives lenient (.complete exprLevel (joinAll frames last))
      (tokens ++ operand) := by
  induction hframes generalizing above last operand with
  | nil => exact hlast.weaken hlevel
  | @cons frame frames level tokens lefts hframes hbelow hleft ih =>
      have hjoined := Derives.operation frame.means hleft (hlast.weaken hlevel)
      rw [List.append_assoc, List.append_assoc, List.singleton_append]
      exact ih hbelow hjoined

/-- The frames alone are an expression that breaks off behind an operator. -/
theorem FramesRead.lacking {lenient : Bool} {frames : List Frame} {level : Nat}
    {tokens : List Token} (hframes : FramesRead lenient frames level tokens)
    {hole : Expr → Expr} {rest : List Token}
    (hrest : ∀ given, Derives lenient (.lacking level given (hole given)) rest)
    (given : Expr) :
    Derives lenient (.lacking exprLevel given (hang hole frames given))
      (tokens ++ rest) := by
  induction hframes generalizing hole rest with
  | nil => exact hrest given
  | @cons frame frames level tokens lefts hframes hbelow hleft ih =>
      rw [List.append_assoc, List.append_assoc, List.singleton_append]
      exact ih fun operand =>
        Derives.furtherOperator frame.means hbelow hleft (hrest frame.left)

theorem FramesRead.lacking_cons {lenient : Bool} {frame : Frame} {frames : List Frame}
    {level : Nat} {tokens : List Token}
    (hframes : FramesRead lenient (frame :: frames) level tokens) (given : Expr) :
    Derives lenient
      (.lacking exprLevel given (joinAll (shifted given frame frames) frame.left))
        tokens := by
  cases hframes with
  | cons hframes hbelow hleft =>
      rw [joinAll_shifted]
      exact hframes.lacking
        (fun operand => Derives.lastOperator frame.means hbelow hleft) given

/-! ## Steps -/

theorem NestRead.of_parts {focus : Focus} {frames : List Frame} {outer : List Enclosure}
    {level : Nat} {outside inside latest : List Token}
    (houter : EnclosuresRead outer outside)
    (hframes : FramesRead true frames level inside) (hfocus : FocusRead focus latest) :
    NestRead ⟨focus, frames, outer⟩ (outside ++ (inside ++ latest)) :=
  ⟨outside, level, inside, latest, houter, hframes, hfocus, rfl⟩

theorem FramesRead.level_le {lenient : Bool} {frames : List Frame} {level : Nat}
    {tokens : List Token} (hframes : FramesRead lenient frames level tokens) :
    level ≤ operandLevel := by
  cases hframes with
  | nil => decide
  | @cons frame => exact frame.op.rightLevel_le_operandLevel

/-- What is settled in the innermost group: the operands are arguments, or the last of
them has become the first operand of the frames behind it. -/
inductive OperandsRead (arguments : List Expr) : List Expr → List Token → Prop
  | listed {operands : List Expr} {tokens : List Token}
      (hoperands : ArgumentsRead operands tokens) :
      OperandsRead arguments operands tokens
  | taken {given result : Expr} {others : List Expr} {tokens rest : List Token}
      (harguments : arguments = given :: others)
      (hgiven : ArgumentsRead (given :: others) tokens)
      (hrest : Derives true (.lacking exprLevel given result) rest) :
      OperandsRead arguments (result :: others) (tokens ++ rest)

theorem operandsRead_of_settled {nest : Nest} {operands : List Expr} {level : Nat}
    {before inside latest : List Token} (hfocus : nest.focus.isFunction = false)
    (harguments : ArgumentsRead (innerArguments nest.outer) before)
    (hframes : FramesRead true nest.frames level inside)
    (hlatest : FocusRead nest.focus latest) (hsettled : nest.settled = .ok operands) :
    OperandsRead (innerArguments nest.outer) operands
      (before ++ (inside ++ latest)) := by
  obtain ⟨focus, frames, outer⟩ := nest
  cases focus with
  | function function fn known => cases hfocus
  | complete last =>
      cases hsettled
      exact .listed (.cons harguments (hframes.complete hframes.level_le hlatest))
  | operand =>
      cases hlatest
      rw [List.append_nil]
      cases frames with
      | nil =>
          cases hsettled
          cases hframes
          rw [List.append_nil]
          exact .listed harguments
      | cons frame frames =>
          cases hinner : innerArguments outer with
          | nil =>
              simp only [Nest.settled, hinner] at hsettled
              cases hsettled
          | cons given others =>
              simp only [Nest.settled, hinner] at hsettled
              cases hsettled
              simp only [hinner] at harguments
              exact .taken rfl harguments (hframes.lacking_cons given)

theorem derives_of_argumentsRead {expr : Expr} {tokens : List Token}
    (harguments : ArgumentsRead [expr] tokens) :
    Derives true (.complete exprLevel expr) tokens := by
  cases harguments with
  | cons hnone hargument =>
      cases hnone
      exact hargument

theorem derives_of_operandsRead {expr : Expr} {tokens : List Token}
    (hoperands : OperandsRead [] [expr] tokens) :
    Derives true (.complete exprLevel expr) tokens := by
  cases hoperands with
  | listed hlisted => exact derives_of_argumentsRead hlisted
  | taken harguments => cases harguments

theorem derives_call {function opening closing : Token} {fn : Fn} {first second : Expr}
    {arguments : List Expr} {tokens : List Token}
    (means : function.role? = some (.function fn))
    (hopening : opening.role? = some .opening)
    (hclosing : closing.role? = some .closing)
    (hoperands : OperandsRead arguments [second, first] tokens) :
    Derives true (.complete operandLevel (.apply (.function fn) first second))
      (function :: opening :: (tokens ++ [closing])) := by
  cases hoperands with
  | listed hlisted =>
      cases hlisted with
      | cons hfirst hsecond =>
          rw [List.append_assoc]
          exact .call means hopening hclosing (derives_of_argumentsRead hfirst) hsecond
  | taken _ hgiven hrest =>
      cases hgiven with
      | cons hfirst hsecond =>
          rw [List.append_assoc, List.append_assoc]
          exact .lackingCall rfl means hopening hclosing
            (derives_of_argumentsRead hfirst) hsecond hrest

theorem NestRead.close {nest next : Nest} {tokens : List Token} {closing : Token}
    (means : closing.role? = some .closing) (hfocus : nest.focus.isFunction = false)
    (hnest : NestRead nest tokens) (hclose : nest.close closing.position = .ok next) :
    NestRead next (tokens ++ [closing]) := by
  obtain ⟨outside, level, inside, latest, houter, hframes, hlatest, rfl⟩ := hnest
  obtain ⟨operands, hsettled, hwith⟩ := close_eq_ok hclose
  obtain ⟨focus, frames, outer⟩ := nest
  cases houter with
  | nil => cases hwith
  | @cons opener around rest aroundLevel beyond before opened hrest haround hopener =>
      cases hopener with
      | @plain opening start hopening =>
          have hoperands := operandsRead_of_settled hfocus .nil hframes hlatest hsettled
          match operands, hwith with
          | [expr], hwith =>
              cases hwith
              have hgroup :=
                Derives.group hopening means (derives_of_operandsRead hoperands)
              have hread : NestRead ⟨.complete expr, around, rest⟩ _ :=
                .of_parts hrest haround hgroup
              simpa only [List.append_assoc, List.singleton_append, List.nil_append,
                List.cons_append] using hread
      | @call function opening fn start arguments listed known hopening harguments =>
          have hoperands :=
            operandsRead_of_settled hfocus harguments hframes hlatest hsettled
          match operands, hwith with
          | [second, first], hwith =>
              cases hwith
              have hcall := derives_call known hopening means hoperands
              have hread : NestRead ⟨.complete _, around, rest⟩ _ :=
                .of_parts hrest haround hcall
              simpa only [List.append_assoc, List.singleton_append,
                List.cons_append] using hread

theorem NestRead.readOperand {nest next : Nest} {tokens : List Token} {token : Token}
    {role : Role} (means : token.role? = some role) (hfocus : nest.focus = .operand)
    (hnest : NestRead nest tokens)
    (hread : nest.readOperand token role means = .ok next) :
    NestRead next (tokens ++ [token]) := by
  obtain ⟨focus, frames, outer⟩ := nest
  cases hfocus
  cases role with
  | closing => exact hnest.close means rfl hread
  | operator op => cases hread
  | operand expr =>
      cases hread
      obtain ⟨outside, level, inside, latest, houter, hframes, rfl, rfl⟩ := hnest
      have hnext : NestRead ⟨.complete expr, frames, outer⟩ _ :=
        .of_parts houter hframes (Derives.operand means)
      simpa only [List.append_assoc, List.nil_append] using hnext
  | function fn =>
      cases hread
      obtain ⟨outside, level, inside, latest, houter, hframes, rfl, rfl⟩ := hnest
      have hnext : NestRead ⟨.function token fn means, frames, outer⟩ _ :=
        .of_parts houter hframes rfl
      simpa only [List.append_assoc, List.nil_append] using hnext
  | opening =>
      cases hread
      obtain ⟨outside, level, inside, latest, houter, hframes, rfl, rfl⟩ := hnest
      have hnext :
          NestRead ⟨.operand, [], ⟨.plain token.position, frames⟩ :: outer⟩ _ :=
        .of_parts (.cons houter hframes (.plain means)) .nil rfl
      simpa only [List.append_assoc, List.nil_append, List.append_nil] using hnext

theorem NestRead.nextArgument {nest next : Nest} {tokens : List Token} {last : Expr}
    (hfocus : nest.focus = .complete last) (hnest : NestRead nest tokens)
    (hnext : nest.nextArgument? last = some next) :
    NestRead next tokens ∧ next.focus = .operand := by
  obtain ⟨focus, frames, outer⟩ := nest
  cases hfocus
  obtain ⟨outside, level, inside, latest, houter, hframes, hlatest, rfl⟩ := hnest
  cases houter with
  | nil => cases hnext
  | @cons opener around rest aroundLevel beyond before opened hrest haround hopener =>
      cases hopener with
      | plain => cases hnext
      | @call function opening fn start arguments listed known hopening harguments =>
          cases hnext
          refine ⟨?_, rfl⟩
          have hargument := hframes.complete hframes.level_le hlatest
          have hopened : OpenerRead
              (.call function fn known start (joinAll frames last :: arguments))
              _ := .call known hopening (.cons harguments hargument)
          have hread : NestRead ⟨.operand, [], _⟩ _ :=
            .of_parts (.cons hrest haround hopened) .nil rfl
          simpa only [List.append_assoc, List.cons_append, List.append_nil] using hread

/-- Reading a token keeps what has been read in pieces. -/
theorem NestRead.read {nest next : Nest} {tokens : List Token} {token : Token}
    {role : Role} (means : token.role? = some role) (hnest : NestRead nest tokens)
    (hread : nest.read token role means = .ok next) :
    NestRead next (tokens ++ [token]) := by
  obtain ⟨focus, frames, outer⟩ := nest
  cases focus with
  | operand => exact hnest.readOperand means rfl hread
  | function function fn known =>
      obtain ⟨outside, level, inside, latest, houter, hframes, rfl, rfl⟩ := hnest
      cases role <;> cases hread
      have hopened : OpenerRead (.call function fn known token.position []) _ :=
        .call known means .nil
      have hnext : NestRead ⟨.operand, [], _⟩ _ :=
        .of_parts (.cons houter hframes hopened) .nil rfl
      simpa only [List.append_assoc, List.singleton_append, List.append_nil] using hnext
  | complete last =>
      change Nest.readBehind _ last token role means = .ok next at hread
      rcases Nest.readBehind_eq_ok hread with
        ⟨op, known, rfl, rfl⟩ | ⟨rfl, hclose⟩ | ⟨between, hbetween, hoperand⟩
      · obtain ⟨outside, level, inside, latest, houter, hframes, hlatest, rfl⟩ := hnest
        obtain ⟨kept, before, after, hkept, hprecedence, hafter, htokens⟩ :=
          hframes.operator op hframes.level_le op.leftLevel_le_operandLevel hlatest
        let taken := joinAll (frames.takeWhile fun frame => frame.op.leftFirst op) last
        have hnewer : FramesRead true (⟨taken, token, op, means⟩ :: _) _ _ :=
          .cons hkept hprecedence hafter
        have hnext : NestRead ⟨.operand, _, outer⟩ _ := .of_parts houter hnewer rfl
        rw [htokens]
        simpa only [List.append_assoc, List.append_nil] using hnext
      · exact hnest.close means rfl hclose
      · obtain ⟨hbetweenRead, hfocus⟩ := hnest.nextArgument rfl hbetween
        exact hbetweenRead.readOperand means hfocus hoperand

theorem NestRead.run {nest last : Nest} {tokens more : List Token}
    (hnest : NestRead nest tokens) (hrun : Nest.Run nest more last) :
    NestRead last (tokens ++ more) := by
  induction hrun generalizing tokens with
  | nil nest => rwa [List.append_nil]
  | cons means hread _ ih =>
      have hnext := ih (hnest.read means hread)
      rwa [List.append_assoc, List.singleton_append] at hnext

theorem nestRead_start : NestRead .start [] :=
  .of_parts .nil .nil rfl

theorem finish_eq_ok {nest : Nest} {expr : Expr} (hfinish : nest.finish = .ok expr) :
    nest.focus.isFunction = false ∧ nest.outer = [] ∧ nest.settled = .ok [expr] := by
  obtain ⟨focus, frames, outer⟩ := nest
  have hconclude {operands : List Expr}
      (hwith : Nest.concludeWith operands outer = .ok expr) :
      outer = [] ∧ operands = [expr] := by
    match outer, operands, hwith with
    | [], [whole], hwith => cases hwith; exact ⟨rfl, rfl⟩
  have hbind (hbound : ((Nest.settled ⟨focus, frames, outer⟩).bind fun operands =>
      Nest.concludeWith operands outer) = .ok expr) :
      outer = [] ∧ Nest.settled ⟨focus, frames, outer⟩ = .ok [expr] := by
    cases hsettled : Nest.settled ⟨focus, frames, outer⟩ with
    | error fault => rw [hsettled] at hbound; cases hbound
    | ok operands =>
        rw [hsettled] at hbound
        obtain ⟨houter, rfl⟩ := hconclude hbound
        exact ⟨houter, rfl⟩
  cases focus with
  | function token fn means => cases hfinish
  | operand => exact ⟨rfl, hbind hfinish⟩
  | complete last => exact ⟨rfl, hbind hfinish⟩

/-- A nest that is a whole expression has read it. -/
theorem NestRead.finish {nest : Nest} {tokens : List Token} {expr : Expr}
    (hnest : NestRead nest tokens) (hfinish : nest.finish = .ok expr) :
    ReadsLeniently tokens expr := by
  obtain ⟨hfocus, houter, hsettled⟩ := finish_eq_ok hfinish
  obtain ⟨focus, frames, outer⟩ := nest
  cases houter
  obtain ⟨outside, level, inside, latest, hnone, hframes, hlatest, rfl⟩ := hnest
  cases hnone
  exact derives_of_operandsRead
    (operandsRead_of_settled hfocus .nil hframes hlatest hsettled)

end InfixCalc
