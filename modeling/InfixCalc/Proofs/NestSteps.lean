import Mathlib
import InfixCalc.Proofs.Nest

/-!
# A nest reads as the reader does

One lemma for each operation on the stacks says what it does to the stacks of a nest
while expressions are kept as they are.  Together they show that reading a token takes
the stacks of a nest to the stacks of the next nest, or fails with the same fault.
-/

namespace InfixCalc

theorem Token.operator_of_role {token : Token} {op : Op}
    (hrole : token.role? = some (.operator op)) : token.operator = .ok (some op) := by
  obtain ⟨label, hkind, hop⟩ := Token.kind_of_role hrole
  simp only [Token.operator, hkind, Kind.isOperator, hop]

/-! ## Reductions -/

theorem innermost_waiting (frames : List Frame) (pending : List Pending) :
    innermost (waiting frames ++ pending) = innermost pending := by
  induction frames with
  | nil => rfl
  | cons frame frames ih => exact ih

theorem any_call_outerPending (outer : List Enclosure) :
    (innermost (outerPending outer)).any Group.call =
      outer.head?.any fun enclosure => enclosure.opener.isCall := by
  cases outer with
  | nil => rfl
  | cons enclosure rest =>
      obtain ⟨opener, frames⟩ := enclosure
      cases opener <;> rfl

theorem floor_waiting (frames : List Frame) (pending : List Pending) :
    floor (waiting frames ++ pending) = floor pending := by
  rw [floor, innermost_waiting, floor]

theorem floor_outerPending (outer : List Enclosure) :
    floor (outerPending outer) = (coveredValues outer).length := by
  cases outer with
  | nil => rfl
  | cons enclosure rest =>
      obtain ⟨opener, frames⟩ := enclosure
      cases opener <;> rfl

theorem outerValues_eq (outer : List Enclosure) :
    outerValues outer = innerArguments outer ++ coveredValues outer := by
  cases outer <;> rfl

/-- A frame and an operand behind it are joined as soon as both are in reach. -/
theorem reduceBy_frame (frame : Frame) (last : Expr) (values : List Expr)
    (foldings : List Folding) {floor : Nat} (hfloor : floor ≤ values.length) :
    Operands.reduceBy ⟨last :: frame.left :: values, foldings⟩ .building
      frame.token floor = .ok ⟨frame.join last :: values, foldings⟩ := by
  have hreach : ¬ values.length + 2 < floor + 2 := by omega
  simp only [Operands.reduceBy, List.length_cons, if_neg hreach,
    Token.operator_of_role frame.means]
  rfl

theorem reduceWhile_of_reduceBy {mode : Mode} {yields : Token → Except Failure Bool}
    {token : Token} {rest : List Pending} {operands reduced : Operands}
    (hyields : yields token = .ok true)
    (hreduce : operands.reduceBy mode token (floor rest) = .ok reduced) :
    reduceWhile mode yields (.token token :: rest) operands =
      reduceWhile mode yields rest reduced := by
  rw [reduceWhile, hyields]
  simp only [hreduce]

/-- Repeated reductions are single ones, for as long as the latest entry is a token that
yields. -/
theorem reduceWhile_eq (mode : Mode) (yields : Token → Except Failure Bool)
    (state : Stacks) :
    reduceWhile mode yields state.pending state.operands =
      match state.pending with
      | .token token :: _ =>
        match yields token with
        | .ok true =>
          (state.reduce mode).andThen fun reduced =>
            reduceWhile mode yields reduced.pending reduced.operands
        | .ok false => .done state
        | .error failure => .failed failure state
      | _ => .done state := by
  obtain ⟨operands, pending⟩ := state
  match pending with
  | [] => rfl
  | .group group :: rest => rfl
  | .token token :: rest =>
      simp only [reduceWhile, Stacks.reduce]
      cases yields token with
      | error failure => rfl
      | ok yielded =>
          cases yielded with
          | false => rfl
          | true => cases operands.reduceBy mode token (floor rest) <;> rfl

/-- An operator waits for the pending one, as long as that takes the operand between
them. -/
theorem reduceBefore_eq (mode : Mode) (incoming : Token) (state : Stacks) :
    state.reduceBefore mode incoming =
      match pendingOperator state.pending, incoming.operator with
      | .error failure, _ => .failed failure state
      | .ok none, _ => .done state
      | .ok (some _), .error failure => .failed failure state
      | .ok (some left), .ok right =>
        if right.any fun op => left.leftFirst op then
          (state.reduce mode).andThen fun reduced => reduced.reduceBefore mode incoming
        else .done state := by
  obtain ⟨operands, pending⟩ := state
  rw [Stacks.reduceBefore, reduceWhile_eq]
  match pending with
  | [] => rfl
  | .group group :: rest => rfl
  | .token token :: rest =>
      simp only [pendingOperator, Token.yieldsTo]
      cases token.operator with
      | error failure => rfl
      | ok left =>
          cases left with
          | none => rfl
          | some left =>
              cases incoming.operator with
              | error failure => rfl
              | ok right =>
                  dsimp only
                  cases right.any fun op => left.leftFirst op <;> rfl

/-- A reduction joins the latest frames that yield, down to the first that does not. -/
theorem reduceWhile_waiting {yields : Token → Except Failure Bool} (pops : Frame → Bool)
    {pending : List Pending} {values : List Expr} (foldings : List Folding)
    (hyields : ∀ frame : Frame, yields frame.token = .ok (pops frame))
    (hstop : ∀ operands,
      reduceWhile .building yields pending operands = .done ⟨operands, pending⟩)
    (hfloor : floor pending ≤ values.length) (frames : List Frame) (last : Expr) :
    reduceWhile .building yields (waiting frames ++ pending)
        ⟨last :: (lefts frames ++ values), foldings⟩ =
      .done
        ⟨⟨joinAll (frames.takeWhile pops) last ::
            (lefts (frames.dropWhile pops) ++ values), foldings⟩,
          waiting (frames.dropWhile pops) ++ pending⟩ := by
  induction frames generalizing last with
  | nil => exact hstop _
  | cons frame frames ih =>
      have hreach : floor (waiting frames ++ pending) ≤
          (lefts frames ++ values).length := by
        rw [floor_waiting, List.length_append]
        omega
      cases hpops : pops frame with
      | false =>
          simp only [List.takeWhile_cons, List.dropWhile_cons, hpops]
          change reduceWhile .building yields (.token frame.token :: _) _ = _
          rw [reduceWhile, hyields, hpops]
          rfl
      | true =>
          simp only [List.takeWhile_cons, List.dropWhile_cons, hpops, if_true]
          have hyield : yields frame.token = .ok true := by rw [hyields, hpops]
          exact (reduceWhile_of_reduceBy hyield
            (reduceBy_frame frame last _ foldings hreach)).trans (ih (frame.join last))

theorem oldest_token (frame : Frame) (left : Expr) (frames : List Frame) :
    (oldest { frame with left := left } frames).token =
      (oldest frame frames).token := by
  cases frames <;> rfl

/-- Without an operand behind them and one in front of them, the frames run out of
operands at the oldest. -/
theorem reduceWhile_lacking {yields : Token → Except Failure Bool}
    {pending : List Pending} {values : List Expr} (foldings : List Folding)
    (hyields : ∀ frame : Frame, yields frame.token = .ok true)
    (hfloor : floor pending = values.length) (frame : Frame) (frames : List Frame) :
    ∃ state : Stacks,
      reduceWhile .building yields (waiting (frame :: frames) ++ pending)
          ⟨lefts (frame :: frames) ++ values, foldings⟩ =
        .failed
          (.fault (.located (oldest frame frames).token.position
            (.missingOperand (oldest frame frames).token.text)))
          state ∧
        state.operands.foldings = foldings := by
  induction frames generalizing frame with
  | nil =>
      refine ⟨⟨⟨frame.left :: values, foldings⟩, pending⟩, ?_, rfl⟩
      have hshort : (frame.left :: values).length < floor pending + 2 := by
        rw [hfloor, List.length_cons]
        omega
      change reduceWhile .building yields (.token frame.token :: pending)
        ⟨frame.left :: values, foldings⟩ = _
      rw [reduceWhile, hyields]
      simp only [Operands.reduceBy, if_pos hshort]
      rfl
  | cons next frames ih =>
      have hreach : floor (waiting (next :: frames) ++ pending) ≤
          (lefts frames ++ values).length := by
        rw [floor_waiting, List.length_append]
        omega
      -- The operator finds its own left operand behind it and the next one in front.
      let joined := { frame with left := next.left : Frame }.join frame.left
      have hjoin := reduceBy_frame { frame with left := next.left } frame.left
        (lefts frames ++ values) foldings hreach
      obtain ⟨state, hfailed, hfoldings⟩ := ih { next with left := joined }
      refine ⟨state, ?_, hfoldings⟩
      rw [oldest_token] at hfailed
      exact (reduceWhile_of_reduceBy (hyields frame) hjoin).trans hfailed

theorem waiting_shifted (given : Expr) (frame : Frame) (frames : List Frame) :
    waiting (shifted given frame frames) = waiting (frame :: frames) := by
  induction frames generalizing frame with
  | nil => rfl
  | cons next frames ih => exact congrArg (Pending.token frame.token :: ·) (ih next)

theorem lefts_shifted (given : Expr) (frame : Frame) (frames : List Frame) :
    frame.left :: lefts (shifted given frame frames) =
      lefts (frame :: frames) ++ [given] := by
  induction frames generalizing frame with
  | nil => rfl
  | cons next frames ih => exact congrArg (frame.left :: ·) (ih next)

theorem reduceWhile_all {yields : Token → Except Failure Bool}
    {pending : List Pending} {values : List Expr} (foldings : List Folding)
    (hyields : ∀ frame : Frame, yields frame.token = .ok true)
    (hstop : ∀ operands,
      reduceWhile .building yields pending operands = .done ⟨operands, pending⟩)
    (hfloor : floor pending ≤ values.length) (frames : List Frame) (last : Expr) :
    reduceWhile .building yields (waiting frames ++ pending)
        ⟨last :: (lefts frames ++ values), foldings⟩ =
      .done ⟨⟨joinAll frames last :: values, foldings⟩, pending⟩ := by
  have htake : frames.takeWhile (fun _ => true) = frames :=
    List.takeWhile_eq_self_iff.mpr fun _ _ => rfl
  have hdrop : frames.dropWhile (fun _ => true) = [] :=
    List.dropWhile_eq_nil_iff.mpr fun _ _ => rfl
  have hreduce :=
    reduceWhile_waiting (fun _ => true) foldings hyields hstop hfloor frames last
  rwa [htake, hdrop] at hreduce

/-- With an operand in front of them, the frames take the operands one place further
on. -/
theorem reduceWhile_shifted {yields : Token → Except Failure Bool}
    {pending : List Pending} {values : List Expr} (foldings : List Folding)
    (hyields : ∀ frame : Frame, yields frame.token = .ok true)
    (hstop : ∀ operands,
      reduceWhile .building yields pending operands = .done ⟨operands, pending⟩)
    (hfloor : floor pending ≤ values.length) (given : Expr) (frame : Frame)
    (frames : List Frame) :
    reduceWhile .building yields (waiting (frame :: frames) ++ pending)
        ⟨lefts (frame :: frames) ++ given :: values, foldings⟩ =
      .done
        ⟨⟨joinAll (shifted given frame frames) frame.left :: values, foldings⟩,
          pending⟩ := by
  have hvalues : lefts (frame :: frames) ++ given :: values =
      frame.left :: (lefts (shifted given frame frames) ++ values) := by
    rw [← List.cons_append, lefts_shifted, List.append_assoc, List.singleton_append]
  rw [← waiting_shifted given, hvalues]
  exact reduceWhile_all foldings hyields hstop hfloor _ _

theorem reduceWhile_outerPending (mode : Mode) (yields : Token → Except Failure Bool)
    (outer : List Enclosure) (operands : Operands) :
    reduceWhile mode yields (outerPending outer) operands =
      .done ⟨operands, outerPending outer⟩ := by
  cases outer with
  | nil => rfl
  | cons enclosure rest =>
      obtain ⟨opener, frames⟩ := enclosure
      cases opener <;> rfl

/-! ## Groups -/

variable {α β : Type}

/-- An outcome on the stacks is what a step on something that stands for stacks leads
to expect: the stacks of its result, or its fault. -/
def Outcome.Matches (outcome : Outcome) (view : α → Stacks) : Except Fault α → Prop
  | .ok result => outcome = .done (view result)
  | .error fault =>
    ∃ state, outcome = .failed (.fault fault) state ∧ state.operands.foldings = []

theorem Outcome.Matches.exists_of_done {state : Stacks} {view : α → Stacks}
    {expected : Except Fault α}
    (hmatches : (Outcome.done state).Matches view expected) :
    ∃ result, expected = .ok result ∧ state = view result := by
  cases expected with
  | ok result =>
      cases hmatches
      exact ⟨result, rfl, rfl⟩
  | error fault =>
      obtain ⟨left, hfailed, -⟩ := hmatches
      cases hfailed

theorem Outcome.Matches.andThen {outcome : Outcome} {first : Except Fault α}
    {second : α → Except Fault β} {next : Stacks → Outcome} {viewFirst : α → Stacks}
    {viewSecond : β → Stacks} (hfirst : outcome.Matches viewFirst first)
    (hsecond : ∀ result, (next (viewFirst result)).Matches viewSecond (second result)) :
    (outcome.andThen next).Matches viewSecond (first.bind second) := by
  cases first with
  | error fault =>
      obtain ⟨state, rfl, hfoldings⟩ := hfirst
      exact ⟨state, rfl, hfoldings⟩
  | ok result =>
      subst hfirst
      exact hsecond result

/-- The stacks whose innermost group holds nothing but these operands. -/
def settledStacks (outer : List Enclosure) (operands : List Expr) : Stacks :=
  ⟨⟨operands ++ coveredValues outer, []⟩, outerPending outer⟩

/-- Joining all that waits in the innermost group leaves its operands in reach, or
fails for want of one. -/
theorem reduceGroup_stacks (nest : Nest)
    (hfocus : nest.focus.isFunction = false) :
    (nest.stacks.reduceGroup .building).Matches (settledStacks nest.outer)
      nest.settled := by
  obtain ⟨focus, frames, outer⟩ := nest
  have hstop := reduceWhile_outerPending .building (fun _ => .ok true) outer
  have hfloor : floor (outerPending outer) = (coveredValues outer).length :=
    floor_outerPending outer
  have hreach : floor (outerPending outer) ≤
      (innerArguments outer ++ coveredValues outer).length := by
    rw [hfloor, List.length_append]
    omega
  simp only [Nest.stacks, Stacks.reduceGroup, outerValues_eq]
  cases focus with
  | function token fn means => cases hfocus
  | complete last => exact reduceWhile_all [] (fun _ => rfl) hstop hreach frames last
  | operand =>
      cases frames with
      | nil => exact hstop _
      | cons frame frames =>
          cases harguments : innerArguments outer with
          | nil =>
              simp only [Nest.settled, harguments]
              exact reduceWhile_lacking [] (fun _ => rfl) hfloor frame frames
          | cons given others =>
              have hbelow : floor (outerPending outer) ≤
                  (others ++ coveredValues outer).length := by
                rw [hfloor, List.length_append]
                omega
              simp only [Nest.settled, harguments]
              exact reduceWhile_shifted [] (fun _ => rfl) hstop hbelow given
                frame frames

theorem closePlain_stacks (start position : Int) (around : List Frame)
    (rest : List Enclosure) (operands : List Expr) :
    (Stacks.closePlain
        ⟨⟨operands ++ (lefts around ++ outerValues rest), []⟩,
          waiting around ++ outerPending rest⟩
        ⟨start, (lefts around ++ outerValues rest).length, false⟩).Matches Nest.stacks
      (Nest.closeWith operands (⟨.plain start, around⟩ :: rest) position) := by
  have hcount : (operands ++ (lefts around ++ outerValues rest)).length -
      (lefts around ++ outerValues rest).length = operands.length := by
    rw [List.length_append, Nat.add_sub_cancel]
  simp only [Stacks.closePlain, hcount]
  match operands with
  | [] => exact ⟨_, rfl, rfl⟩
  | [expr] => rfl
  | _ :: _ :: _ => exact ⟨_, rfl, rfl⟩

theorem closeCall_stacks {function : Token} {fn : Fn}
    (means : function.role? = some (.function fn)) (start position : Int)
    (arguments : List Expr) (around : List Frame) (rest : List Enclosure)
    (operands : List Expr) :
    (Stacks.closeCall
        ⟨⟨operands ++ (lefts around ++ outerValues rest), []⟩,
          .token function :: (waiting around ++ outerPending rest)⟩
        .building
        ⟨start, (lefts around ++ outerValues rest).length, true⟩).Matches Nest.stacks
      (Nest.closeWith operands
        (⟨.call function fn means start arguments, around⟩ :: rest) position) := by
  have hcount : (operands ++ (lefts around ++ outerValues rest)).length -
      (lefts around ++ outerValues rest).length = operands.length := by
    rw [List.length_append, Nat.add_sub_cancel]
  simp only [Stacks.closeCall, (Token.kind_of_role means).2, hcount, Fn.arity]
  match operands with
  | [] => exact ⟨_, rfl, rfl⟩
  | [_] => exact ⟨_, rfl, rfl⟩
  | [second, first] => rfl
  | _ :: _ :: _ :: more =>
      have hmany : ¬ more.length + 1 + 1 + 1 = 2 := by omega
      simp only [List.length_cons, if_neg hmany]
      exact ⟨_, rfl, rfl⟩

theorem closeGroup_stacks (nest : Nest) (position : Int)
    (hfocus : nest.focus.isFunction = false) :
    (nest.stacks.closeGroup .building position).Matches Nest.stacks
      (nest.close position) := by
  refine (reduceGroup_stacks nest hfocus).andThen fun operands => ?_
  cases houter : nest.outer with
  | nil => exact ⟨_, rfl, rfl⟩
  | cons enclosure rest =>
      obtain ⟨opener, around⟩ := enclosure
      cases opener with
      | plain start => exact closePlain_stacks start position around rest operands
      | call function fn means start arguments =>
          exact closeCall_stacks means start position arguments around rest operands

/-! ## Tokens -/

theorem yieldsTo_of_role {incoming : Token} {op : Op}
    (hrole : incoming.role? = some (.operator op)) (frame : Frame) :
    incoming.yieldsTo frame.token = .ok (frame.op.leftFirst op) := by
  simp [Token.yieldsTo, Token.operator_of_role hrole,
    Token.operator_of_role frame.means]

/-- Nothing that opens a group yields to an operator. -/
theorem reduceBefore_stacks {token : Token} {op : Op}
    (hrole : token.role? = some (.operator op)) (last : Expr) (frames : List Frame)
    (outer : List Enclosure) :
    (Nest.stacks ⟨.complete last, frames, outer⟩).reduceBefore .building token =
      .done
        ⟨⟨joinAll (frames.takeWhile fun frame => frame.op.leftFirst op) last ::
            (lefts (frames.dropWhile fun frame => frame.op.leftFirst op) ++
              outerValues outer),
            []⟩,
          waiting (frames.dropWhile fun frame => frame.op.leftFirst op) ++
            outerPending outer⟩ := by
  have hfloor : floor (outerPending outer) ≤ (outerValues outer).length := by
    rw [floor_outerPending, outerValues_eq, List.length_append]
    omega
  exact reduceWhile_waiting (fun frame => frame.op.leftFirst op) []
    (yieldsTo_of_role hrole) (reduceWhile_outerPending .building _ outer)
    hfloor frames last

/-- What the reader knows of the token before is what the nest knows of its focus. -/
def Focus.Follows (focus : Focus) (previous : Option Token) : Prop :=
  match focus with
  | .operand => uncalled? previous = none ∧ endsOperand previous = false
  | .function token _ _ =>
    uncalled? previous = some token ∧ endsOperand previous = false
  | .complete _ => uncalled? previous = none ∧ endsOperand previous = true

theorem uncalledFault_of_uncalled {previous : Option Token}
    (huncalled : uncalled? previous = none) (token : Token) :
    uncalledFault? previous token = none := by
  simp only [uncalledFault?, huncalled]

/-- Placing a token where an operand has to come. -/
theorem placeToken_operand {previous : Option Token} {token : Token} {role : Role}
    (means : token.role? = some role) (huncalled : uncalled? previous = none)
    (hprevious : role.startsOperand = true ∨ endsOperand previous = false)
    (frames : List Frame) (outer : List Enclosure) :
    (placeToken .building previous token
      (Nest.stacks ⟨.operand, frames, outer⟩)).Matches Nest.stacks
        (Nest.readOperand ⟨.operand, frames, outer⟩ token role means) := by
  have hkind := Token.kind_of_role means
  cases role with
  | operand expr =>
      rcases hkind with ⟨hkind, rfl⟩ | ⟨hkind, rfl⟩ <;>
        simp only [placeToken, hkind] <;> rfl
  | function fn => simp only [placeToken, hkind.1]; rfl
  | operator op =>
      obtain ⟨label, hkind, -⟩ := hkind
      have hends := hprevious.resolve_left Bool.false_ne_true
      simp only [placeToken, hkind, hends]
      exact ⟨_, rfl, rfl⟩
  | opening =>
      simp only [placeToken, hkind, huncalled]
      rfl
  | closing =>
      simp only [placeToken, hkind]
      exact closeGroup_stacks _ _ rfl

/-- Reading the first token of the next argument first finishes the one before. -/
theorem separateOperands_call {previous : Option Token} {token : Token}
    (hends : endsOperand previous = true) (hstarts : token.kind.startsOperand = true)
    {function : Token} {fn : Fn} (means : function.role? = some (.function fn))
    (position : Int) (arguments : List Expr) (last : Expr) (frames around : List Frame)
    (rest : List Enclosure) :
    separateOperands .building previous token
        (Nest.stacks
          ⟨.complete last, frames,
            ⟨.call function fn means position arguments, around⟩ :: rest⟩) =
      .done (Nest.stacks
        ⟨.operand, [],
          ⟨.call function fn means position (joinAll frames last :: arguments),
            around⟩ :: rest⟩) := by
  have hcall : (innermost (Nest.stacks ⟨.complete last, frames,
      ⟨.call function fn means position arguments, around⟩ :: rest⟩).pending).any
        Group.call = true := by
    change (innermost (waiting frames ++ outerPending _)).any Group.call = true
    rw [innermost_waiting, any_call_outerPending]
    rfl
  have hreduce := reduceGroup_stacks ⟨.complete last, frames,
    ⟨.call function fn means position arguments, around⟩ :: rest⟩ rfl
  simp only [separateOperands, hends, hstarts, hcall, Bool.and_self, if_true]
  exact hreduce

theorem separateOperands_done {previous : Option Token} {token : Token} (state : Stacks)
    (hapart : endsOperand previous = false ∨ token.kind.startsOperand = false) :
    separateOperands .building previous token state = .done state := by
  rcases hapart with hends | hstarts
  · simp only [separateOperands, hends, Bool.false_and, Bool.false_eq_true, if_false]
  · simp only [separateOperands, hstarts, Bool.and_false, Bool.false_eq_true, if_false]

theorem separateOperands_adjacent {previous : Option Token} {token : Token}
    (state : Stacks) (hends : endsOperand previous = true)
    (hstarts : token.kind.startsOperand = true)
    (hplain : (innermost state.pending).any Group.call = false) :
    separateOperands .building previous token state =
      .failed (.fault (.located token.position (.adjacentOperands token.text)))
        state := by
  simp only [separateOperands, hends, hstarts, hplain, Bool.and_self, if_true,
    Bool.false_eq_true, if_false]

theorem readToken_function {previous : Option Token} {function token : Token} {fn : Fn}
    {role : Role} (known : function.role? = some (.function fn)) (frames : List Frame)
    (outer : List Enclosure)
    (hfollows : (Focus.function function fn known).Follows previous)
    (means : token.role? = some role) :
    (readToken .building previous token
        (Nest.stacks ⟨.function function fn known, frames, outer⟩)).Matches Nest.stacks
      (Nest.read ⟨.function function fn known, frames, outer⟩ token role means) := by
  obtain ⟨huncalled, hends⟩ := hfollows
  have hkind := Token.kind_of_role means
  have hrefused (hother : token.kind ≠ .openParen) :
      uncalledFault? previous token =
        some (.located token.position
          (.notCalled function.text (some token.text))) := by
    simp only [uncalledFault?, huncalled, if_neg hother]
  cases role with
  | opening =>
      have hcalled : uncalledFault? previous token = none := by
        simp only [uncalledFault?, huncalled, hkind, if_true]
      simp only [readToken, hcalled, separateOperands_done _ (.inl hends),
        Outcome.andThen, placeToken, hkind, huncalled]
      rfl
  | operand expr =>
      rw [readToken,
        hrefused (by rcases hkind with ⟨hkind, -⟩ | ⟨hkind, -⟩ <;> simp [hkind])]
      exact ⟨_, rfl, rfl⟩
  | function fn =>
      rw [readToken, hrefused (by simp [hkind.1])]
      exact ⟨_, rfl, rfl⟩
  | operator op =>
      obtain ⟨label, hkind, -⟩ := hkind
      rw [readToken, hrefused (by simp [hkind])]
      exact ⟨_, rfl, rfl⟩
  | closing =>
      rw [readToken, hrefused (by simp [hkind])]
      exact ⟨_, rfl, rfl⟩

/-- Behind an operand, the first token of another one starts the next argument of a
call and is a fault elsewhere. -/
theorem readToken_adjacent {previous : Option Token} {token : Token} {role : Role}
    (means : token.role? = some role) (hstarts : role.startsOperand = true)
    (last : Expr) (frames : List Frame) (outer : List Enclosure)
    (hfollows : (Focus.complete last).Follows previous) :
    (readToken .building previous token
        (Nest.stacks ⟨.complete last, frames, outer⟩)).Matches Nest.stacks
      (Nest.readBehind ⟨.complete last, frames, outer⟩ last token role means) := by
  obtain ⟨huncalled, hends⟩ := hfollows
  have hkind : token.kind.startsOperand = true := by
    rw [Token.startsOperand_of_role means, hstarts]
  have hinnermost : innermost (Nest.stacks ⟨.complete last, frames, outer⟩).pending =
      innermost (outerPending outer) := innermost_waiting frames _
  have hcall := any_call_outerPending outer
  rw [readToken, uncalledFault_of_uncalled huncalled,
    Nest.readBehind_of_starts _ _ means hstarts]
  match outer with
  | [] =>
      rw [separateOperands_adjacent _ hends hkind (by rw [hinnermost, hcall]; rfl)]
      exact ⟨_, rfl, rfl⟩
  | ⟨.plain start, around⟩ :: rest =>
      rw [separateOperands_adjacent _ hends hkind (by rw [hinnermost, hcall]; rfl)]
      exact ⟨_, rfl, rfl⟩
  | ⟨.call function fn known position arguments, around⟩ :: rest =>
      rw [separateOperands_call hends hkind]
      exact placeToken_operand means huncalled (.inl hstarts) _ _

/-- Reading a token takes the stacks of a nest to the stacks of the next nest. -/
theorem readToken_stacks {previous : Option Token} {token : Token} {role : Role}
    (nest : Nest) (hfollows : nest.focus.Follows previous)
    (means : token.role? = some role) :
    (readToken .building previous token nest.stacks).Matches Nest.stacks
      (nest.read token role means) := by
  obtain ⟨focus, frames, outer⟩ := nest
  have hkind := Token.kind_of_role means
  have hstarts := Token.startsOperand_of_role means
  cases focus with
  | function function fn known =>
      exact readToken_function known frames outer hfollows means
  | operand =>
      obtain ⟨huncalled, hends⟩ := hfollows
      rw [readToken, uncalledFault_of_uncalled huncalled,
        separateOperands_done _ (.inl hends)]
      exact placeToken_operand means huncalled (.inr hends) frames outer
  | complete last =>
      cases role with
      | operand expr => exact readToken_adjacent means rfl last frames outer hfollows
      | function fn => exact readToken_adjacent means rfl last frames outer hfollows
      | opening => exact readToken_adjacent means rfl last frames outer hfollows
      | operator op =>
          obtain ⟨huncalled, hends⟩ := hfollows
          obtain ⟨label, hkind, -⟩ := hkind
          rw [readToken, uncalledFault_of_uncalled huncalled,
            separateOperands_done _ (.inr hstarts)]
          simp only [Outcome.andThen, placeToken, hkind, hends, if_true,
            reduceBefore_stacks means]
          rfl
      | closing =>
          obtain ⟨huncalled, hends⟩ := hfollows
          rw [readToken, uncalledFault_of_uncalled huncalled,
            separateOperands_done _ (.inr hstarts)]
          simp only [Outcome.andThen, placeToken, hkind]
          exact closeGroup_stacks _ _ rfl

theorem conclude_settledStacks (outer : List Enclosure) (operands : List Expr) :
    conclude (settledStacks outer operands) =
      (Nest.concludeWith operands outer).mapError .fault := by
  match outer, operands with
  | [], [] => rfl
  | [], [_] => rfl
  | [], _ :: _ :: _ => rfl
  | ⟨.plain _, _⟩ :: _, _ => rfl
  | ⟨.call _ _ _ _ _, _⟩ :: _, _ => rfl

theorem finishReading_stacks {previous : Option Token} (nest : Nest)
    (hfollows : nest.focus.Follows previous) :
    finishReading .building previous nest.stacks =
      ⟨nest.finish.mapError .fault, [], []⟩ := by
  have hsettle (hfocus : nest.focus.isFunction = false)
      (huncalled : uncalled? previous = none) :
      finishReading .building previous nest.stacks =
        ⟨(nest.settled.bind fun operands =>
          Nest.concludeWith operands nest.outer).mapError .fault, [], []⟩ := by
    have hreduce := reduceGroup_stacks nest hfocus
    simp only [finishReading, huncalled]
    cases hsettled : nest.settled with
    | error fault =>
        rw [hsettled] at hreduce
        obtain ⟨state, hfailed, hfoldings⟩ := hreduce
        simp only [hfailed, hfoldings]
        rfl
    | ok operands =>
        rw [hsettled] at hreduce
        change nest.stacks.reduceGroup .building =
          .done (settledStacks nest.outer operands) at hreduce
        simp only [hreduce, conclude_settledStacks]
        rfl
  unfold Nest.finish
  cases hfocus : nest.focus with
  | function token fn means =>
      rw [hfocus] at hfollows
      simp only [finishReading, hfollows.1]
      rfl
  | operand =>
      rw [hfocus] at hfollows
      exact hsettle (by rw [hfocus]; rfl) hfollows.1
  | complete last =>
      rw [hfocus] at hfollows
      exact hsettle (by rw [hfocus]; rfl) hfollows.1

/-! ## What a token leaves behind -/

theorem follows_complete {token : Token} {role : Role} (means : token.role? = some role)
    (hends : role.endsOperand = true) (expr : Expr) :
    (Focus.complete expr).Follows (some token) := by
  have hkind := Token.kind_of_role means
  refine ⟨?_, (Token.endsOperand_of_role means).trans hends⟩
  cases role with
  | operand expr =>
      rcases hkind with ⟨hkind, -⟩ | ⟨hkind, -⟩ <;> simp [uncalled?, hkind]
  | closing => simp [uncalled?, hkind]
  | function fn => cases hends
  | operator op => cases hends
  | opening => cases hends

theorem follows_operand {token : Token} {role : Role} (means : token.role? = some role)
    (hrole : role = .opening ∨ ∃ op, role = .operator op) :
    Focus.operand.Follows (some token) := by
  have hkind := Token.kind_of_role means
  have hends := Token.endsOperand_of_role means
  rcases hrole with rfl | ⟨op, rfl⟩
  · exact ⟨by simp [uncalled?, hkind], hends⟩
  · obtain ⟨label, hkind, -⟩ := hkind
    exact ⟨by simp [uncalled?, hkind], hends⟩

theorem follows_function {token : Token} {fn : Fn}
    (means : token.role? = some (.function fn)) :
    (Focus.function token fn means).Follows (some token) := by
  have hkind := Token.kind_of_role means
  exact ⟨by simp [uncalled?, hkind.1], Token.endsOperand_of_role means⟩

/-- Closing a group completes an operand. -/
theorem closeWith_focus {operands : List Expr} {outer : List Enclosure} {position : Int}
    {next : Nest} (hclose : Nest.closeWith operands outer position = .ok next) :
    ∃ expr, next.focus = .complete expr := by
  unfold Nest.closeWith at hclose
  split at hclose
  · cases hclose
  · split at hclose <;> cases hclose
    exact ⟨_, rfl⟩
  · split at hclose <;> cases hclose
    exact ⟨_, rfl⟩

theorem close_eq_ok {nest next : Nest} {position : Int}
    (hclose : nest.close position = .ok next) :
    ∃ operands, nest.settled = .ok operands ∧
      Nest.closeWith operands nest.outer position = .ok next := by
  unfold Nest.close at hclose
  cases hsettled : nest.settled with
  | error fault => rw [hsettled] at hclose; cases hclose
  | ok operands => rw [hsettled] at hclose; exact ⟨operands, rfl, hclose⟩

theorem follows_of_close {nest next : Nest} {token : Token}
    (means : token.role? = some .closing)
    (hclose : nest.close token.position = .ok next) :
    next.focus.Follows (some token) := by
  obtain ⟨operands, -, hwith⟩ := close_eq_ok hclose
  obtain ⟨expr, hfocus⟩ := closeWith_focus hwith
  rw [hfocus]
  exact follows_complete means rfl expr

theorem follows_of_readOperand {nest next : Nest} {token : Token} {role : Role}
    (means : token.role? = some role)
    (hread : nest.readOperand token role means = .ok next) :
    next.focus.Follows (some token) := by
  cases role with
  | operand expr => cases hread; exact follows_complete means rfl expr
  | function fn => cases hread; exact follows_function means
  | opening => cases hread; exact follows_operand means (.inl rfl)
  | operator op => cases hread
  | closing => exact follows_of_close means hread

/-- What a nest has just read is what its next token will follow. -/
theorem follows_of_read {nest next : Nest} {token : Token} {role : Role}
    (means : token.role? = some role) (hread : nest.read token role means = .ok next) :
    next.focus.Follows (some token) := by
  obtain ⟨focus, frames, outer⟩ := nest
  cases focus with
  | operand => exact follows_of_readOperand means hread
  | function function fn known =>
      cases role <;> cases hread
      exact follows_operand means (.inl rfl)
  | complete last =>
      change Nest.readBehind _ last token role means = .ok next at hread
      rcases Nest.readBehind_eq_ok hread with
        ⟨op, known, rfl, rfl⟩ | ⟨rfl, hclose⟩ | ⟨between, -, hoperand⟩
      · exact follows_operand means (.inr ⟨op, rfl⟩)
      · exact follows_of_close means hclose
      · exact follows_of_readOperand means hoperand

end InfixCalc
