import Mathlib
import InfixCalc.Proofs.FoldingAgreement

/-!
# Positions decide nothing

A reader looks at the kind, the text and the value of a token and only repeats its
position in a fault.  So tokens that are moved to other places are read as the same
expression, or fail with the same cause at the new place.  For the same reason a fault
has no other position than that of a token.
-/

namespace InfixCalc

variable (place : Int → Int)

def Token.moved (token : Token) : Token :=
  { token with position := place token.position }

def Group.moved (group : Group) : Group :=
  { group with position := place group.position }

def Pending.moved : Pending → Pending
  | .token waiting => .token (waiting.moved place)
  | .group opened => .group (opened.moved place)

def Stacks.moved (state : Stacks) : Stacks :=
  { state with pending := state.pending.map (Pending.moved place) }

def Fault.moved (fault : Fault) : Fault :=
  { fault with position := fault.position.map place }

def Failure.moved : Failure → Failure
  | .fault found => .fault (found.moved place)
  | .defect found => .defect found

def Outcome.moved : Outcome → Outcome
  | .done state => .done (state.moved place)
  | .failed failure state => .failed (failure.moved place) (state.moved place)

def Reading.moved (reading : Reading) : Reading where
  result := reading.result.mapError (Failure.moved place)
  unread := reading.unread.map (Token.moved place)
  foldings := reading.foldings

@[simp]
theorem Token.moved_kind (token : Token) : (token.moved place).kind = token.kind := rfl

@[simp]
theorem Token.moved_text (token : Token) : (token.moved place).text = token.text := rfl

@[simp]
theorem Stacks.moved_operands (state : Stacks) :
    (state.moved place).operands = state.operands :=
  rfl

@[simp]
theorem Stacks.moved_pending (state : Stacks) :
    (state.moved place).pending = state.pending.map (Pending.moved place) := rfl

theorem Token.isWellFormed_moved (token : Token) :
    (token.moved place).isWellFormed = token.isWellFormed := rfl

theorem Token.operator_moved (token : Token) :
    (token.moved place).operator = token.operator := rfl

/-- Looking up an operator fails without a position. -/
theorem Token.mapError_operator (token : Token) :
    token.operator.mapError (Failure.moved place) = token.operator := by
  unfold Token.operator
  split <;> rfl

theorem Outcome.moved_andThen {outcome outcome' : Outcome}
    {next next' : Stacks → Outcome} (houtcome : outcome' = outcome.moved place)
    (hnext : ∀ state : Stacks, next' (state.moved place) = (next state).moved place) :
    outcome'.andThen next' = (outcome.andThen next).moved place := by
  subst houtcome
  cases outcome with
  | done state => exact hnext state
  | failed failure state => rfl

/-! ## Reductions -/

theorem innermost_moved (pending : List Pending) :
    innermost (pending.map (Pending.moved place)) =
      (innermost pending).map (Group.moved place) := by
  induction pending with
  | nil => rfl
  | cons entry rest ih =>
      cases entry with
      | token token => exact ih
      | group group => rfl

theorem floor_moved (pending : List Pending) :
    floor (pending.map (Pending.moved place)) = floor pending := by
  unfold floor
  rw [innermost_moved]
  cases innermost pending <;> rfl

theorem mapError_replaceTop (operands : Operands) (head : Head) :
    (operands.replaceTop .building head).mapError (Failure.moved place) =
      operands.replaceTop .building head := by
  unfold Operands.replaceTop
  split <;> rfl

theorem reduceBy_moved (operands : Operands) (token : Token) (floor : Nat) :
    operands.reduceBy .building (token.moved place) floor =
      (operands.reduceBy .building token floor).mapError (Failure.moved place) := by
  unfold Operands.reduceBy
  rw [Token.operator_moved]
  split
  · rfl
  · have hoperator := token.mapError_operator place
    split
    · exact (mapError_replaceTop place operands _).symm
    · simp only [Operands.refusal]
      rfl
    · rename_i failure hfailure
      rw [hfailure] at hoperator
      exact congrArg Except.error (Except.error.inj hoperator).symm

theorem reduceWhile_moved {yields yields' : Token → Except Failure Bool}
    (hyields : ∀ token : Token,
      yields' (token.moved place) = (yields token).mapError (Failure.moved place))
    (pending : List Pending) (operands : Operands) :
    reduceWhile .building yields' (pending.map (Pending.moved place)) operands =
      (reduceWhile .building yields pending operands).moved place := by
  induction pending generalizing operands with
  | nil => rfl
  | cons entry rest ih =>
      cases entry with
      | group group => rfl
      | token token =>
          simp only [List.map_cons, Pending.moved, reduceWhile, hyields]
          cases yields token with
          | error failure => rfl
          | ok yielded =>
              cases yielded with
              | false => rfl
              | true =>
                  simp only [Except.mapError, floor_moved, reduceBy_moved]
                  cases operands.reduceBy .building token (floor rest) with
                  | error failure => rfl
                  | ok reduced => exact ih reduced

theorem reduceGroup_moved (state : Stacks) :
    (state.moved place).reduceGroup .building =
      (state.reduceGroup .building).moved place :=
  reduceWhile_moved place (fun _ => rfl) state.pending state.operands

theorem yieldsTo_moved (incoming pending : Token) :
    (incoming.moved place).yieldsTo (pending.moved place) =
      (incoming.yieldsTo pending).mapError (Failure.moved place) := by
  have hpending := pending.mapError_operator place
  have hincoming := incoming.mapError_operator place
  unfold Token.yieldsTo
  rw [Token.operator_moved, Token.operator_moved]
  cases hleft : pending.operator with
  | error failure =>
      rw [hleft] at hpending
      exact congrArg Except.error (Except.error.inj hpending).symm
  | ok left =>
      cases left with
      | none => rfl
      | some op =>
          cases hright : incoming.operator with
          | error failure =>
              rw [hright] at hincoming
              exact congrArg Except.error (Except.error.inj hincoming).symm
          | ok right => rfl

theorem reduceBefore_moved (incoming : Token) (state : Stacks) :
    (state.moved place).reduceBefore .building (incoming.moved place) =
      (state.reduceBefore .building incoming).moved place :=
  reduceWhile_moved place (yieldsTo_moved place incoming) state.pending state.operands

/-! ## Groups and tokens -/

theorem closePlain_moved (group : Group) (state : Stacks) :
    (state.moved place).closePlain (group.moved place) =
      (state.closePlain group).moved place := by
  simp only [Stacks.closePlain, Stacks.moved_operands, Group.moved]
  split <;> rfl

theorem closeCall_moved (group : Group) (state : Stacks) :
    (state.moved place).closeCall .building (group.moved place) =
      (state.closeCall .building group).moved place := by
  obtain ⟨operands, pending⟩ := state
  match pending with
  | [] => rfl
  | .group other :: rest => rfl
  | .token token :: rest =>
      simp only [Stacks.closeCall, Stacks.moved, List.map_cons, Pending.moved,
        Token.moved_text, Group.moved]
      cases Fn.ofName? token.text with
      | none => rfl
      | some fn =>
          simp only
          split
          · have hreplace := mapError_replaceTop place operands (.function fn)
            cases hresult : operands.replaceTop .building (.function fn) with
            | ok replaced => rfl
            | error failure =>
                rw [hresult] at hreplace
                simp only [Outcome.moved, Except.error.inj hreplace]
                rfl
          · rfl

theorem closeGroup_moved (position : Int) (state : Stacks) :
    (state.moved place).closeGroup .building (place position) =
      (state.closeGroup .building position).moved place := by
  refine Outcome.moved_andThen place (reduceGroup_moved place state) fun reduced => ?_
  obtain ⟨operands, pending⟩ := reduced
  match pending with
  | [] => rfl
  | .token token :: rest => rfl
  | .group group :: rest =>
      simp only [Stacks.moved, List.map_cons, Pending.moved, Group.moved]
      split
      · exact closeCall_moved place group ⟨operands, rest⟩
      · exact closePlain_moved place group ⟨operands, rest⟩

theorem uncalled_moved (previous : Option Token) :
    uncalled? (previous.map (Token.moved place)) =
      (uncalled? previous).map (Token.moved place) := by
  cases previous with
  | none => rfl
  | some token =>
      simp only [uncalled?, Option.map_some, Option.filter_some, Token.moved_kind]
      by_cases hfunction : token.kind = .function
      · simp only [hfunction, decide_true, if_true, Option.map_some]
      · simp only [hfunction, decide_false, Bool.false_eq_true, if_false,
          Option.map_none]

theorem endsOperand_moved (previous : Option Token) :
    endsOperand (previous.map (Token.moved place)) = endsOperand previous := by
  cases previous <;> rfl

theorem uncalledFault_moved (previous : Option Token) (token : Token) :
    uncalledFault? (previous.map (Token.moved place)) (token.moved place) =
      (uncalledFault? previous token).map (Fault.moved place) := by
  simp only [uncalledFault?, uncalled_moved]
  cases uncalled? previous with
  | none => rfl
  | some function =>
      have hkind : (token.moved place).kind = token.kind := rfl
      by_cases hopening : token.kind = .openParen
      · simp only [Option.map_some, if_pos hopening, if_pos (hkind.trans hopening),
          Option.map_none]
      · simp only [Option.map_some, if_neg hopening, if_neg (hkind.symm ▸ hopening)]
        rfl

theorem separateOperands_moved (previous : Option Token) (token : Token)
    (state : Stacks) :
    separateOperands .building (previous.map (Token.moved place)) (token.moved place)
        (state.moved place) =
      (separateOperands .building previous token state).moved place := by
  have hcall : ((innermost state.pending).map (Group.moved place)).any Group.call =
      (innermost state.pending).any Group.call := by
    cases innermost state.pending <;> rfl
  simp only [separateOperands, endsOperand_moved, Token.moved_kind,
    Stacks.moved_pending, innermost_moved, hcall]
  split
  · split
    · exact reduceGroup_moved place state
    · rfl
  · rfl

theorem placeToken_moved (previous : Option Token) (token : Token) (state : Stacks) :
    placeToken .building (previous.map (Token.moved place)) (token.moved place)
        (state.moved place) =
      (placeToken .building previous token state).moved place := by
  simp only [placeToken, Token.moved_kind, endsOperand_moved, uncalled_moved,
    Option.isSome_map]
  split
  · rfl
  · rfl
  · rfl
  · split
    · exact Outcome.moved_andThen place (reduceBefore_moved place token state)
        fun _ => rfl
    · rfl
  · rfl
  · exact closeGroup_moved place token.position state

theorem readToken_moved (previous : Option Token) (token : Token) (state : Stacks) :
    readToken .building (previous.map (Token.moved place)) (token.moved place)
        (state.moved place) =
      (readToken .building previous token state).moved place := by
  simp only [readToken, uncalledFault_moved]
  cases uncalledFault? previous token with
  | some fault => rfl
  | none =>
      exact Outcome.moved_andThen place
        (separateOperands_moved place previous token state)
        (placeToken_moved place previous token)

/-! ## Readings -/

theorem conclude_moved (state : Stacks) :
    conclude (state.moved place) = (conclude state).mapError (Failure.moved place) := by
  obtain ⟨⟨values, foldings⟩, pending⟩ := state
  rcases pending with _ | ⟨token | group, rest⟩
  · rcases values with _ | ⟨value, _ | ⟨other, more⟩⟩ <;> rfl
  · rcases values with _ | ⟨value, _ | ⟨other, more⟩⟩ <;> rfl
  · rfl

theorem finishReading_moved (previous : Option Token) (state : Stacks) :
    finishReading .building (previous.map (Token.moved place)) (state.moved place) =
      (finishReading .building previous state).moved place := by
  simp only [finishReading, uncalled_moved, reduceGroup_moved]
  cases uncalled? previous with
  | some function => rfl
  | none =>
      cases state.reduceGroup .building with
      | failed failure reduced => rfl
      | done reduced =>
          simp only [Option.map_none, Outcome.moved, conclude_moved]
          rfl

theorem readOn_moved (tokens : List Token) (previous : Option Token) (state : Stacks) :
    readOn .building (previous.map (Token.moved place)) (state.moved place)
        (tokens.map (Token.moved place)) =
      (readOn .building previous state tokens).moved place := by
  induction tokens generalizing previous state with
  | nil => exact finishReading_moved place previous state
  | cons token rest ih =>
      simp only [List.map_cons, readOn, readToken_moved]
      cases readToken .building previous token state with
      | failed failure left => rfl
      | done next => exact ih (some token) next

/-- Moved tokens are read alike. -/
theorem readTokens_moved (tokens : List Token) :
    readTokens .building (tokens.map (Token.moved place)) =
      (readTokens .building tokens).moved place :=
  readOn_moved place tokens none .empty

/-- Both readers give the same answer for moved tokens, with the fault at the new
place. -/
theorem result_moved (mode : Mode) {tokens : List Token}
    (hformed : ∀ token ∈ tokens, token.isWellFormed = true) :
    (readTokens mode (tokens.map (Token.moved place))).result =
      (readTokens mode tokens).result.mapError (Failure.moved place) := by
  have hbuilding : (readTokens .building (tokens.map (Token.moved place))).result =
      (readTokens .building tokens).result.mapError (Failure.moved place) := by
    rw [readTokens_moved]
    rfl
  cases mode with
  | building => exact hbuilding
  | folding meaning =>
      have hmovedFormed :
          ∀ token ∈ tokens.map (Token.moved place), token.isWellFormed = true := by
        simpa only [List.forall_mem_map, Token.isWellFormed_moved] using hformed
      cases hbuilt : (readTokens .building tokens).result with
      | error failure =>
          rw [hbuilt] at hbuilding
          rw [readTokens_folding_of_error meaning hmovedFormed hbuilding,
            readTokens_folding_of_error meaning hformed hbuilt]
          rfl
      | ok tree =>
          rw [hbuilt] at hbuilding
          obtain ⟨leaf, hfolded, hstands⟩ :=
            exists_standsFor_of_ok meaning hformed hbuilt
          obtain ⟨other, hmoved, hother⟩ :=
            exists_standsFor_of_ok meaning hmovedFormed hbuilding
          rw [hmoved, hfolded, hstands.unique hother]
          rfl

/-- A fault is located at a token, since any other place can be moved alone. -/
theorem exists_token_of_located {mode : Mode} {tokens : List Token}
    (hformed : ∀ token ∈ tokens, token.isWellFormed = true) {cause : Cause}
    {position : Int}
    (hresult : (readTokens mode tokens).result =
      .error (.fault (.located position cause))) :
    ∃ token ∈ tokens, token.position = position := by
  by_contra hnone
  let aside : Int → Int := Function.update id position (position + 1)
  have hstays : tokens.map (Token.moved aside) = tokens := by
    refine (List.map_congr_left fun token hmem => ?_).trans (List.map_id tokens)
    have hother : token.position ≠ position := fun heq => hnone ⟨token, hmem, heq⟩
    simp only [Token.moved, aside, Function.update_of_ne hother, id_eq]
  have hmoved := result_moved aside mode hformed
  rw [hstays, hresult] at hmoved
  have hplace : position = aside position :=
    Option.some.inj (congrArg Fault.position
      (Failure.fault.inj (Except.error.inj hmoved)))
  simp only [aside, Function.update_self] at hplace
  omega

end InfixCalc
