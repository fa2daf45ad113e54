import InfixCalc.Expr.Reading
import InfixCalc.Proofs.Leaves
import InfixCalc.Proofs.Tiling

/-!
# The reader never gets stuck

A reader takes from its stacks without looking whether something is there, and it looks
up operators and functions by the texts of tokens.  What it relies on is an invariant
of both stacks and the token before: a pending token means an operator, or the function
of the group that lies on it, no group reaches below the one around it, and every
operand has a value.  Each operation keeps the invariant or fails with a fault of how
the tokens are put together.
-/

namespace InfixCalc

/-! ## Faults -/

/-- The fault is one of how tokens are put together. -/
def Fault.IsParsing (fault : Fault) : Prop :=
  ErrorKind.parsing ∈ fault.cause.kind.lineage

theorem isParsing_of_kind {fault : Fault}
    (hkind : fault.cause.kind = .parsing ∨ fault.cause.kind.parent? = some .parsing) :
    fault.IsParsing := by
  unfold Fault.IsParsing ErrorKind.lineage
  rcases hkind with hkind | hparent
  · rw [hkind]
    decide
  · rw [hparent]
    exact List.mem_cons_of_mem _ List.mem_cons_self

/-- What lacks an operand is an operator. -/
def Fault.BlamesOperator (fault : Fault) : Prop :=
  ∀ text, fault.cause = .missingOperand text → (Op.ofText? text).isSome = true

/-- The failure comes of the tokens and not of the reader. -/
def Failure.IsOfTokens : Failure → Prop
  | .fault found => found.IsParsing ∧ found.BlamesOperator
  | .defect _ => False

theorem isOfTokens_of_kind {position : Option Int} {cause : Cause}
    (hkind : cause.kind = .parsing ∨ cause.kind.parent? = some .parsing)
    (hother : ∀ text, cause ≠ .missingOperand text) :
    (Failure.fault ⟨cause, position⟩).IsOfTokens :=
  ⟨isParsing_of_kind hkind, fun text hcause => absurd hcause (hother text)⟩

theorem ofText?_of_operator {token : Token} {op : Op}
    (hoperator : token.operator = .ok (some op)) : Op.ofText? token.text = some op := by
  unfold Token.operator at hoperator
  split at hoperator <;> cases hoperator
  assumption

theorem isOfTokens_missingOperand {token : Token} {op : Op}
    (hoperator : token.operator = .ok (some op)) :
    (Failure.fault (.located token.position
      (.missingOperand token.text))).IsOfTokens := by
  refine ⟨isParsing_of_kind (.inr rfl), fun text hcause => ?_⟩
  cases hcause
  exact Option.isSome_of_mem (ofText?_of_operator hoperator)

/-! ## Ready stacks -/

/-- What is pending is what the reader takes it for.  A token on its own means an
operator, in front of the group of a call stands a function, and a group holds at least
the operands of the group around it back. -/
inductive Ready : List Pending → Prop
  | nil : Ready []
  | operator {token : Token} {op : Op} {rest : List Pending}
      (hoperator : token.operator = .ok (some op)) (hrest : Ready rest) :
      Ready (.token token :: rest)
  | plain {position : Int} {depth : Nat} {rest : List Pending}
      (hfloor : floor rest ≤ depth) (hrest : Ready rest) :
      Ready (.group ⟨position, depth, false⟩ :: rest)
  | call {function : Token} {fn : Fn} {position : Int} {depth : Nat}
      {rest : List Pending} (hkind : function.kind = .function)
      (hfunction : Fn.ofName? function.text = some fn) (hfloor : floor rest ≤ depth)
      (hrest : Ready rest) :
      Ready (.group ⟨position, depth, true⟩ :: .token function :: rest)

/-- Nothing can be missing when the latest entries are taken. -/
structure Stacks.IsReady (state : Stacks) : Prop where
  values : ∀ expr ∈ state.operands.values, expr.IsEvaluable
  pending : Ready state.pending
  floor : floor state.pending ≤ state.operands.values.length

/-- The stacks are ready behind this token.  Only a function that has just been read
lies on them without its group. -/
def Stacks.IsReadyAfter (state : Stacks) (previous : Option Token) : Prop :=
  match uncalled? previous with
  | none => state.IsReady
  | some function =>
    ∃ rest fn, state.pending = .token function :: rest ∧
      Fn.ofName? function.text = some fn ∧ Stacks.IsReady ⟨state.operands, rest⟩

/-- An operation ends as it should or fails because of the tokens. -/
def Outcome.IsSafe (good : Stacks → Prop) : Outcome → Prop
  | .done state => good state
  | .failed failure _ => failure.IsOfTokens

theorem Outcome.IsSafe.andThen {good better : Stacks → Prop} {outcome : Outcome}
    {next : Stacks → Outcome} (hsafe : outcome.IsSafe good)
    (hnext : ∀ state, good state → (next state).IsSafe better) :
    (outcome.andThen next).IsSafe better := by
  cases outcome with
  | done state => exact hnext state hsafe
  | failed failure state => exact hsafe

/-! ## Reductions -/

/-- Two operands with values are joined to one that has a value. -/
theorem replaceTop_safe (mode : Mode) (head : Head) {left right : Expr}
    (below : List Expr) (foldings : List Folding) (hleft : left.IsEvaluable)
    (hright : right.IsEvaluable) :
    ∃ joined further, joined.IsEvaluable ∧
      Operands.replaceTop ⟨right :: left :: below, foldings⟩ mode head =
        .ok ⟨joined :: below, further⟩ := by
  have hnode : (Expr.apply head left right).IsEvaluable :=
    Expr.isEvaluable_apply.mpr ⟨hleft, hright⟩
  cases mode with
  | building => exact ⟨_, _, hnode, rfl⟩
  | folding meaning =>
      obtain ⟨value, hvalue⟩ := hnode.exists_value meaning
      have hnumber : (Expr.number (some value)).IsEvaluable :=
        Expr.isEvaluable_leaf.mpr rfl
      refine ⟨.number (some value), ⟨head, left, right, some value⟩ :: foldings,
        hnumber, ?_⟩
      simp only [Operands.replaceTop, hvalue]

/-- A reduction by an operator lacks an operand or takes two that are above the
floor. -/
theorem reduceBy_safe (mode : Mode) {token : Token} {op : Op} (floor : Nat)
    {operands : Operands} (hoperator : token.operator = .ok (some op))
    (hvalues : ∀ expr ∈ operands.values, expr.IsEvaluable) :
    (∃ reduced, operands.reduceBy mode token floor = .ok reduced ∧
        floor ≤ reduced.values.length ∧ ∀ expr ∈ reduced.values, expr.IsEvaluable) ∨
      ∃ failure, operands.reduceBy mode token floor = .error failure ∧
        failure.IsOfTokens := by
  obtain ⟨values, foldings⟩ := operands
  unfold Operands.reduceBy
  split
  · exact .inr ⟨_, rfl, isOfTokens_missingOperand hoperator⟩
  · rename_i hreach
    match values, hvalues, hreach with
    | [], _, hreach => exact absurd (by simp) hreach
    | [_], _, hreach => exact absurd (by simp) hreach
    | right :: left :: below, hvalues, hreach =>
        obtain ⟨hright, hleft, hbelow⟩ :
            right.IsEvaluable ∧ left.IsEvaluable ∧
              ∀ expr ∈ below, expr.IsEvaluable := by
          simpa only [List.forall_mem_cons] using hvalues
        obtain ⟨joined, further, hjoined, hreplace⟩ :=
          replaceTop_safe mode (.operator op) below foldings hleft hright
        simp only [hoperator]
        refine .inl ⟨_, hreplace, ?_, List.forall_mem_cons.mpr ⟨hjoined, hbelow⟩⟩
        simp only [List.length_cons] at hreach ⊢
        omega

theorem reduceWhile_safe (mode : Mode) {yields : Token → Except Failure Bool}
    (hyields : ∀ token op, token.operator = .ok (some op) →
      ∃ yielded, yields token = .ok yielded)
    {state : Stacks} (hready : state.IsReady) :
    (reduceWhile mode yields state.pending state.operands).IsSafe Stacks.IsReady := by
  obtain ⟨operands, pending⟩ := state
  obtain ⟨hvalues, hpending, hfloor⟩ := hready
  dsimp only at hvalues hpending hfloor ⊢
  -- The operands change with every reduction, and the floor stays where it
  -- is until the group.
  induction hpending generalizing operands with
  | nil => exact ⟨hvalues, .nil, hfloor⟩
  | plain hdepth hrest => exact ⟨hvalues, .plain hdepth hrest, hfloor⟩
  | call hkind hfunction hdepth hrest =>
      exact ⟨hvalues, .call hkind hfunction hdepth hrest, hfloor⟩
  | @operator token op rest hoperator hrest ih =>
      obtain ⟨yielded, hyield⟩ := hyields token op hoperator
      simp only [reduceWhile, hyield]
      cases yielded with
      | false => exact ⟨hvalues, .operator hoperator hrest, hfloor⟩
      | true =>
          rcases reduceBy_safe mode (floor rest) hoperator hvalues with
            ⟨reduced, hreduce, hreach, hkept⟩ | ⟨failure, hreduce, hparsing⟩
          · simp only [hreduce]
            exact ih reduced hkept hreach
          · simp only [hreduce]
            exact hparsing

theorem reduceGroup_safe (mode : Mode) {state : Stacks} (hready : state.IsReady) :
    (state.reduceGroup mode).IsSafe Stacks.IsReady :=
  reduceWhile_safe mode (fun _ _ _ => ⟨true, rfl⟩) hready

theorem yieldsTo_ok {incoming pending : Token} {op latter : Op}
    (hpending : pending.operator = .ok (some op))
    (hincoming : incoming.operator = .ok (some latter)) :
    ∃ yielded, incoming.yieldsTo pending = .ok yielded := by
  simp only [Token.yieldsTo, hpending, hincoming]
  exact ⟨_, rfl⟩

theorem reduceBefore_safe (mode : Mode) {incoming : Token} {op : Op}
    (hincoming : incoming.operator = .ok (some op)) {state : Stacks}
    (hready : state.IsReady) :
    (state.reduceBefore mode incoming).IsSafe Stacks.IsReady :=
  reduceWhile_safe mode (fun _ _ hpending => yieldsTo_ok hpending hincoming) hready

/-! ## Groups -/

theorem closePlain_safe {operands : Operands} {group : Group} {rest : List Pending}
    (hvalues : ∀ expr ∈ operands.values, expr.IsEvaluable) (hrest : Ready rest)
    (hfloor : floor rest ≤ group.depth)
    (hdepth : group.depth ≤ operands.values.length) :
    (Stacks.closePlain ⟨operands, rest⟩ group).IsSafe Stacks.IsReady := by
  unfold Stacks.closePlain
  split
  · exact isOfTokens_of_kind (.inr rfl) nofun
  · exact ⟨hvalues, hrest, hfloor.trans hdepth⟩
  · exact isOfTokens_of_kind (.inr rfl) nofun

theorem closeCall_safe (mode : Mode) {operands : Operands} {group : Group}
    {function : Token} {fn : Fn} {rest : List Pending}
    (hvalues : ∀ expr ∈ operands.values, expr.IsEvaluable)
    (hfunction : Fn.ofName? function.text = some fn) (hrest : Ready rest)
    (hfloor : floor rest ≤ group.depth) :
    (Stacks.closeCall ⟨operands, .token function :: rest⟩ mode group).IsSafe
      Stacks.IsReady := by
  obtain ⟨values, foldings⟩ := operands
  simp only [Stacks.closeCall, hfunction]
  split
  · rename_i hcount
    rw [Fn.arity] at hcount
    -- The arguments lie above the depth of the group, so there are two operands to
    -- take.
    match values, hvalues, hcount with
    | [], _, hcount => exact absurd hcount (by simp)
    | [_], _, hcount => exact absurd hcount (by grind)
    | second :: first :: below, hvalues, hcount =>
        obtain ⟨hsecond, hfirst, hbelow⟩ :
            second.IsEvaluable ∧ first.IsEvaluable ∧
              ∀ expr ∈ below, expr.IsEvaluable := by
          simpa only [List.forall_mem_cons] using hvalues
        obtain ⟨joined, further, hjoined, hreplace⟩ :=
          replaceTop_safe mode (.function fn) below foldings hfirst hsecond
        simp only [hreplace]
        refine ⟨List.forall_mem_cons.mpr ⟨hjoined, hbelow⟩, hrest, ?_⟩
        simp only [List.length_cons] at hcount ⊢
        omega
  · exact isOfTokens_of_kind (.inr rfl) nofun

theorem closeGroup_safe (mode : Mode) (position : Int) {state : Stacks}
    (hready : state.IsReady) :
    (state.closeGroup mode position).IsSafe Stacks.IsReady := by
  refine (reduceGroup_safe mode hready).andThen fun reduced hreduced => ?_
  obtain ⟨operands, pending⟩ := reduced
  obtain ⟨hvalues, hpending, hdepth⟩ := hreduced
  cases hpending with
  | nil => exact isOfTokens_of_kind (.inr rfl) nofun
  | operator => exact isOfTokens_of_kind (.inr rfl) nofun
  | plain hfloor hrest => exact closePlain_safe hvalues hrest hfloor hdepth
  | call _ hfunction hfloor hrest =>
      exact closeCall_safe mode hvalues hfunction hrest hfloor

/-! ## Tokens -/

theorem separateOperands_safe (mode : Mode) (previous : Option Token) (token : Token)
    {state : Stacks} (hready : state.IsReady) :
    (separateOperands mode previous token state).IsSafe Stacks.IsReady := by
  unfold separateOperands
  split
  · split
    · exact reduceGroup_safe mode hready
    · exact isOfTokens_of_kind (.inr rfl) nofun
  · exact hready

theorem Stacks.IsReady.pushValue {state : Stacks} (hready : state.IsReady) {expr : Expr}
    (hexpr : expr.IsEvaluable) : (state.pushValue expr).IsReady :=
  ⟨List.forall_mem_cons.mpr ⟨hexpr, hready.values⟩, hready.pending,
    hready.floor.trans (Nat.le_succ _)⟩

theorem uncalled_of_kind {token : Token} (hother : token.kind ≠ .function) :
    uncalled? (some token) = none := by
  simp only [uncalled?, Option.filter_some, hother, decide_false,
    Bool.false_eq_true, if_false]

theorem uncalled_eq_some {previous : Option Token} {function : Token}
    (huncalled : uncalled? previous = some function) :
    previous = some function ∧ function.kind = .function := by
  obtain ⟨hprevious, hkind⟩ := Option.filter_eq_some_iff.mp huncalled
  exact ⟨hprevious, of_decide_eq_true hkind⟩

theorem Stacks.IsReady.after {state : Stacks} (hready : state.IsReady) {token : Token}
    (hother : token.kind ≠ .function) : state.IsReadyAfter (some token) := by
  simp only [Stacks.IsReadyAfter, uncalled_of_kind hother]
  exact hready

theorem Outcome.IsSafe.after {outcome : Outcome} (hsafe : outcome.IsSafe Stacks.IsReady)
    {token : Token} (hother : token.kind ≠ .function) :
    outcome.IsSafe fun state => state.IsReadyAfter (some token) := by
  cases outcome with
  | done state => exact Stacks.IsReady.after hsafe hother
  | failed failure state => exact hsafe

/-- Placing a token where no function waits for its parenthesis. -/
theorem placeToken_safe (mode : Mode) {previous : Option Token}
    (hcalled : uncalled? previous = none) {token : Token}
    (hformed : token.isWellFormed = true) {state : Stacks} (hready : state.IsReady) :
    (placeToken mode previous token state).IsSafe fun next =>
      next.IsReadyAfter (some token) := by
  cases hkind : token.kind with
  | number =>
      simp only [Token.isWellFormed, hkind] at hformed
      have hvalue : Leaf.HasValue (.number token.value) := hformed
      simp only [placeToken, hkind]
      exact (hready.pushValue (Expr.isEvaluable_leaf.mpr hvalue)).after
        (by simp [hkind])
  | constant =>
      simp only [Token.isWellFormed, hkind] at hformed
      have hvalue : Leaf.HasValue (.constant token.text token.value) := hformed
      simp only [placeToken, hkind]
      exact (hready.pushValue (Expr.isEvaluable_leaf.mpr hvalue)).after
        (by simp [hkind])
  | function =>
      simp only [Token.isWellFormed, hkind] at hformed
      obtain ⟨fn, hfn⟩ := Option.isSome_iff_exists.mp hformed
      have huncalled : uncalled? (some token) = some token := by
        simp only [uncalled?, Option.filter_some, hkind, decide_true, if_true]
      simp only [placeToken, hkind, Outcome.IsSafe, Stacks.IsReadyAfter, huncalled]
      exact ⟨state.pending, fn, rfl, hfn, hready⟩
  | operator label =>
      simp only [Token.isWellFormed, hkind] at hformed
      obtain ⟨op, hop⟩ := Option.isSome_iff_exists.mp hformed
      have hoperator : token.operator = .ok (some op) := by
        simp only [Token.operator, hkind, Kind.isOperator, hop]
      simp only [placeToken, hkind]
      split
      · refine Outcome.IsSafe.after ?_ (by simp [hkind])
        refine (reduceBefore_safe mode hoperator hready).andThen
          fun reduced hreduced => ?_
        exact ⟨hreduced.values, .operator hoperator hreduced.pending, hreduced.floor⟩
      · exact isOfTokens_of_kind (.inr rfl) nofun
  | openParen =>
      have hopened : (state.openGroup token.position false).IsReady :=
        ⟨hready.values, .plain hready.floor hready.pending, le_rfl⟩
      simp only [placeToken, hkind, hcalled, Option.isSome_none]
      exact hopened.after (by simp [hkind])
  | closeParen =>
      simp only [placeToken, hkind]
      exact (closeGroup_safe mode token.position hready).after (by simp [hkind])

/-- Behind a function only its open parenthesis is read. -/
theorem readToken_function_safe (mode : Mode) {previous : Option Token}
    {function : Token} (huncalled : uncalled? previous = some function) (token : Token)
    {state : Stacks} (hready : state.IsReadyAfter previous) :
    (readToken mode previous token state).IsSafe fun next =>
      next.IsReadyAfter (some token) := by
  simp only [Stacks.IsReadyAfter, huncalled] at hready
  obtain ⟨rest, fn, hpending, hfn, hvalues, hrest, hfloor⟩ := hready
  have hfunction := uncalled_eq_some huncalled
  have hends : endsOperand previous = false := by
    rw [hfunction.1]
    simp only [endsOperand, Option.any_some, hfunction.2]
    rfl
  by_cases hopening : token.kind = .openParen
  · have hcalled : uncalledFault? previous token = none := by
      simp only [uncalledFault?, huncalled, hopening, if_true]
    simp only [readToken, hcalled, separateOperands, hends, Bool.false_and,
      Bool.false_eq_true, if_false, Outcome.andThen, placeToken, hopening, huncalled,
      Option.isSome_some]
    have hopened : (state.openGroup token.position true).IsReady := by
      refine ⟨hvalues, ?_, le_rfl⟩
      simp only [Stacks.openGroup, hpending]
      exact .call hfunction.2 hfn hfloor hrest
    exact hopened.after (by simp [hopening])
  · have hrefused : uncalledFault? previous token =
        some (.located token.position
          (.notCalled function.text (some token.text))) := by
      simp only [uncalledFault?, huncalled, if_neg hopening]
    simp only [readToken, hrefused]
    exact isOfTokens_of_kind (.inl rfl) nofun

/-- Reading a token keeps the stacks ready. -/
theorem readToken_safe (mode : Mode) {previous : Option Token} {token : Token}
    (hformed : token.isWellFormed = true) {state : Stacks}
    (hready : state.IsReadyAfter previous) :
    (readToken mode previous token state).IsSafe fun next =>
      next.IsReadyAfter (some token) := by
  cases huncalled : uncalled? previous with
  | some function => exact readToken_function_safe mode huncalled token hready
  | none =>
      simp only [Stacks.IsReadyAfter, huncalled] at hready
      simp only [readToken, uncalledFault?, huncalled]
      exact (separateOperands_safe mode previous token hready).andThen
        fun _ hseparated => placeToken_safe mode huncalled hformed hseparated

/-! ## Readings -/

/-- The reading is an expression that can be evaluated, or a fault of how the tokens are
put together.  A fault that an operand is missing names an operator. -/
def IsSafeResult (result : Except Failure Expr) : Prop :=
  (∃ expr, result = .ok expr ∧ expr.IsEvaluable) ∨
    ∃ fault, result = .error (.fault fault) ∧ fault.IsParsing ∧ fault.BlamesOperator

theorem isSafeResult_of_isOfTokens {failure : Failure} (htokens : failure.IsOfTokens) :
    IsSafeResult (.error failure) := by
  cases failure with
  | fault found => exact .inr ⟨found, rfl, htokens⟩
  | defect found => exact htokens.elim

theorem conclude_safe {state : Stacks} (hready : state.IsReady) :
    IsSafeResult (conclude state) := by
  unfold conclude
  split
  · exact isSafeResult_of_isOfTokens (isOfTokens_of_kind (.inr rfl) nofun)
  · exact isSafeResult_of_isOfTokens (isOfTokens_of_kind (.inl rfl) nofun)
  · rename_i expr hvalues _
    exact .inl ⟨expr, rfl, hready.values expr (hvalues ▸ List.mem_singleton_self expr)⟩
  · exact isSafeResult_of_isOfTokens (isOfTokens_of_kind (.inr rfl) nofun)

theorem finishReading_safe (mode : Mode) {previous : Option Token} {state : Stacks}
    (hready : state.IsReadyAfter previous) :
    IsSafeResult (finishReading mode previous state).result := by
  unfold finishReading
  cases huncalled : uncalled? previous with
  | some function =>
      exact isSafeResult_of_isOfTokens (isOfTokens_of_kind (.inl rfl) nofun)
  | none =>
      simp only [Stacks.IsReadyAfter, huncalled] at hready
      have hsafe := reduceGroup_safe mode hready
      cases hreduce : state.reduceGroup mode with
      | done reduced =>
          rw [hreduce] at hsafe
          exact conclude_safe hsafe
      | failed failure reduced =>
          rw [hreduce] at hsafe
          exact isSafeResult_of_isOfTokens hsafe

theorem readOn_safe (mode : Mode) {tokens : List Token}
    (hformed : ∀ token ∈ tokens, token.isWellFormed = true) {previous : Option Token}
    {state : Stacks} (hready : state.IsReadyAfter previous) :
    IsSafeResult (readOn mode previous state tokens).result := by
  induction tokens generalizing previous state with
  | nil => exact finishReading_safe mode hready
  | cons token rest ih =>
      obtain ⟨htoken, hrest⟩ := List.forall_mem_cons.mp hformed
      have hsafe := readToken_safe mode htoken hready
      rw [readOn]
      cases hread : readToken mode previous token state with
      | done next =>
          rw [hread] at hsafe
          exact ih hrest hsafe
      | failed failure left =>
          rw [hread] at hsafe
          exact isSafeResult_of_isOfTokens hsafe

theorem isReadyAfter_empty : Stacks.empty.IsReadyAfter none :=
  ⟨by simp [Stacks.empty], .nil, le_rfl⟩

theorem readTokens_safe (mode : Mode) {tokens : List Token}
    (hformed : ∀ token ∈ tokens, token.isWellFormed = true) :
    IsSafeResult (readTokens mode tokens).result :=
  readOn_safe mode hformed isReadyAfter_empty

/-- The stacks of the reader behind these tokens, and the last of them. -/
inductive Reached (mode : Mode) : List Token → Option Token → Stacks → Prop
  | start : Reached mode [] none .empty
  | read {tokens : List Token} {previous : Option Token} {token : Token}
      {state next : Stacks} (hbefore : Reached mode tokens previous state)
      (hread : readToken mode previous token state = .done next) :
      Reached mode (tokens ++ [token]) (some token) next

/-- From there the reader goes on with the rest of its tokens. -/
theorem Reached.readOn_eq {mode : Mode} {tokens : List Token} {previous : Option Token}
    {state : Stacks} (hreached : Reached mode tokens previous state)
    (rest : List Token) :
    readOn mode previous state rest = readTokens mode (tokens ++ rest) := by
  induction hreached generalizing rest with
  | start => rfl
  | @read tokens previous token state next _ hread ih =>
      rw [List.append_assoc, List.singleton_append, ← ih, readOn, hread]

theorem isReadyAfter_of_reached {mode : Mode} {tokens : List Token}
    {previous : Option Token} {state : Stacks}
    (hreached : Reached mode tokens previous state)
    (hformed : ∀ token ∈ tokens, token.isWellFormed = true) :
    state.IsReadyAfter previous := by
  induction hreached with
  | start => exact isReadyAfter_empty
  | read _ hread ih =>
      obtain ⟨hbefore, htoken⟩ := List.forall_mem_append.mp hformed
      have hsafe :=
        readToken_safe mode (htoken _ (List.mem_singleton_self _)) (ih hbefore)
      rwa [hread] at hsafe

/-! ## Texts -/

theorem kind_ne_evaluation_of_isParsing {fault : Fault} (hparsing : fault.IsParsing) :
    fault.cause.kind ≠ .evaluation := by
  intro hkind
  rw [Fault.IsParsing, hkind] at hparsing
  exact absurd hparsing (by decide)

theorem kind_ne_evaluation_of_isOfScanning {fault : Fault}
    (hscanning : fault.IsOfScanning) : fault.cause.kind ≠ .evaluation := by
  intro hkind
  rw [Fault.IsOfScanning, hkind] at hscanning
  exact absurd hscanning (by decide)

/-- Whatever the text, it has a value or a fault, and the fault is none of
evaluation. -/
theorem textValue_safe (mode : Mode) (text : String) :
    (∃ value, textValue mode text = .ok (some value)) ∨
      ∃ fault, textValue mode text = .error (.fault fault) ∧
        fault.cause.kind ≠ .evaluation := by
  unfold textValue readText
  cases htokens : tokenize text with
  | error fault =>
      exact .inr
        ⟨fault, rfl, kind_ne_evaluation_of_isOfScanning (isOfScanning_of_scan htokens)⟩
  | ok tokens =>
      have hformed := (scan_eq_ok_iff.mp htokens).isWellFormed
      rcases readTokens_safe mode hformed with
        ⟨expr, hresult, hevaluable⟩ | ⟨fault, hresult, hparsing, -⟩
      · obtain ⟨value, hvalue⟩ := hevaluable.exists_value Head.apply
        simp only [hresult]
        exact .inl ⟨value, hvalue⟩
      · simp only [hresult]
        exact .inr ⟨fault, rfl, kind_ne_evaluation_of_isParsing hparsing⟩

/-- The reader never gets stuck.  On the way through well-formed tokens its stacks are
always ready, so that only operators are reduced and only functions are called.  It ends
with an expression of numbers and constants or with a fault of how the tokens are put
together.  So every text has a value or a fault, and no defect comes of it. -/
theorem reader_never_stuck (mode : Mode) :
    (∀ tokens : List Token, (∀ token ∈ tokens, token.isWellFormed = true) →
      (∀ previous state, Reached mode tokens previous state →
        state.IsReadyAfter previous) ∧ IsSafeResult (readTokens mode tokens).result) ∧
      ∀ text,
        (∃ value, textValue mode text = .ok (some value)) ∨
          ∃ fault, textValue mode text = .error (.fault fault) ∧
            fault.cause.kind ≠ .evaluation :=
  ⟨fun _ hformed => ⟨fun _ _ hreached => isReadyAfter_of_reached hreached hformed,
    readTokens_safe mode hformed⟩, textValue_safe mode⟩

theorem unfinished_call_is_ready :
    let function : Token := ⟨.function, "min", 0, none⟩
    let opening : Token := ⟨.openParen, "(", 3, none⟩
    let two : Token := ⟨.number, "2", 4, some 2⟩
    let three : Token := ⟨.number, "3", 6, some 3⟩
    let power : Token := ⟨.operator .pow, "^", 7, none⟩
    let tokens := [function, opening, two, three, power]
    let state : Stacks := ⟨⟨[.number (some 3), .number (some 2)], []⟩,
      [.token power, .group ⟨3, 0, true⟩, .token function]⟩
    (∀ token ∈ tokens, token.isWellFormed = true) ∧
      Reached .building tokens (some power) state ∧ state.IsReadyAfter (some power) ∧
      IsSafeResult (readTokens .building tokens).result := by
  intro function opening two three power tokens state
  have hformed : ∀ token ∈ tokens, token.isWellFormed = true := by decide
  have hcall := @Reached.read .building [] none function _ _ .start rfl
  have hopened := @Reached.read .building [function] _ opening _ _ hcall rfl
  have hfirst := @Reached.read .building [function, opening] _ two _ _ hopened rfl
  have hsecond :=
    @Reached.read .building [function, opening, two] _ three _ _ hfirst rfl
  have hreached : Reached .building tokens (some power) state :=
    @Reached.read .building [function, opening, two, three] _ power _ _ hsecond rfl
  obtain ⟨hready, hsafe⟩ := (reader_never_stuck .building).1 tokens hformed
  exact ⟨hformed, hreached, hready _ _ hreached, hsafe⟩

end InfixCalc
