import InfixCalc.Proofs.NestSteps

/-!
# The reduction of a group in closed form

The operators that wait in a group are reduced from the latest to the earliest, and each
takes the two latest operands of the group.  So with enough operands all operators end
up in one expression that hangs to the right.  With too few of them the operators behind
the lack are joined, and the one that finds a single operand, or none, is blamed.
-/

namespace InfixCalc

/-! ## Stacks above a group -/

structure OperatorToken where
  token : Token
  op : Op
  means : token.role? = some (.operator op)

/-- What is said of the operator when it finds less than two operands. -/
def OperatorToken.lack (operator : OperatorToken) : Fault :=
  .located operator.token.position (.missingOperand operator.token.text)

theorem OperatorToken.lack_reports (operator : OperatorToken) :
    operator.lack.Reports .missingOperand (some operator.token.position) none :=
  ⟨rfl, rfl, rfl⟩

/-- Nothing waits in the innermost group, and none of its operands is there yet. -/
structure Stacks.IsFresh (base : Stacks) : Prop where
  pending : ∀ token rest, base.pending ≠ .token token :: rest
  values : base.operands.values.length = floor base.pending

/-- Further operators and operands on top of the stacks, each listed from
bottom to top. -/
def Stacks.grown (base : Stacks) (operators : List OperatorToken) (values : List Expr) :
    Stacks where
  operands := { base.operands with values := values.reverse ++ base.operands.values }
  pending :=
    (operators.map fun operator => .token operator.token).reverse ++ base.pending

/-- Each operator joins the operand in front of it to everything behind it. -/
def chained : List OperatorToken → List Expr → Expr → Expr
  | operator :: operators, left :: lefts, last =>
    .apply (.operator operator.op) left (chained operators lefts last)
  | _, _, last => last

variable {base : Stacks}

theorem grown_pending_append (kept : List OperatorToken) (operator : OperatorToken)
    (values : List Expr) :
    (base.grown (kept ++ [operator]) values).pending =
      .token operator.token :: (base.grown kept values).pending := by
  simp only [Stacks.grown, List.map_append, List.map_singleton, List.reverse_append,
    List.reverse_singleton, List.cons_append, List.nil_append]

theorem floor_grown (operators : List OperatorToken) (values : List Expr) :
    floor (base.grown operators values).pending = floor base.pending := by
  induction operators using List.reverseRecOn with
  | nil => rfl
  | append_singleton operators operator ih =>
      rw [grown_pending_append]
      exact ih

theorem length_grown (operators : List OperatorToken) (values : List Expr) :
    (base.grown operators values).operands.values.length =
      values.length + base.operands.values.length := by
  simp only [Stacks.grown, List.length_append, List.length_reverse]

/-! ## Single reductions -/

theorem reduceGroup_grown_nil (hbase : base.IsFresh) (values : List Expr) :
    (base.grown [] values).reduceGroup .building = .done (base.grown [] values) := by
  obtain ⟨operands, pending⟩ := base
  match pending with
  | [] => rfl
  | .group group :: rest => rfl
  | .token token :: rest => exact absurd rfl (hbase.pending token rest)

/-- The latest operator joins the two latest operands. -/
theorem reduceGroup_grown_join (hbase : base.IsFresh) (kept : List OperatorToken)
    (operator : OperatorToken) (others : List Expr) (left right : Expr) :
    (base.grown (kept ++ [operator]) (others ++ [left, right])).reduceGroup .building =
      (base.grown kept
        (others ++
          [.apply (.operator operator.op) left right])).reduceGroup .building := by
  let frame : Frame := ⟨left, operator.token, operator.op, operator.means⟩
  have hfloor : floor (base.grown kept (others ++ [left, right])).pending ≤
      (others.reverse ++ base.operands.values).length := by
    rw [floor_grown, ← hbase.values, List.length_append]
    omega
  have hjoin := reduceBy_frame frame right _ base.operands.foldings hfloor
  rw [Stacks.reduceGroup, grown_pending_append]
  have hvalues : (base.grown (kept ++ [operator]) (others ++ [left, right])).operands =
      ⟨right :: left :: (others.reverse ++ base.operands.values),
        base.operands.foldings⟩ := by
    simp only [Stacks.grown, List.reverse_append, List.reverse_cons, List.reverse_nil,
      List.nil_append, List.cons_append]
  rw [hvalues, reduceWhile_of_reduceBy rfl hjoin, Stacks.reduceGroup]
  simp only [Stacks.grown, List.reverse_append, List.reverse_singleton,
    List.cons_append]
  rfl

/-- With one operand or none in the group, the latest operator lacks one. -/
theorem reduceGroup_grown_lack (hbase : base.IsFresh) (kept : List OperatorToken)
    (operator : OperatorToken) (values : List Expr) (hshort : values.length ≤ 1) :
    (base.grown (kept ++ [operator]) values).reduceGroup .building =
      .failed (.fault operator.lack) (base.grown kept values) := by
  have hlack : (base.grown kept values).operands.values.length <
      floor (base.grown kept values).pending + 2 := by
    rw [floor_grown, length_grown, hbase.values]
    omega
  rw [Stacks.reduceGroup, grown_pending_append]
  change reduceWhile .building _ _ (base.grown kept values).operands = _
  simp only [reduceWhile, Operands.reduceBy, if_pos hlack]
  rfl

/-! ## The whole group -/

/-- The latest operators are joined, each with the operand in front of it. -/
theorem reduceGroup_grown_chain (hbase : base.IsFresh)
    (kept operators : List OperatorToken) (others lefts : List Expr) (last : Expr)
    (hlength : lefts.length = operators.length) :
    (base.grown (kept ++ operators)
        (others ++ (lefts ++ [last]))).reduceGroup .building =
      (base.grown kept
        (others ++ [chained operators lefts last])).reduceGroup .building := by
  induction operators generalizing kept others lefts with
  | nil =>
      cases List.eq_nil_of_length_eq_zero hlength
      rw [List.append_nil, List.nil_append]
      rfl
  | cons operator operators ih =>
      match lefts, hlength with
      | left :: lefts, hlength =>
          -- The operators behind this one are joined first.
          have hinner :=
            ih (kept ++ [operator]) (others ++ [left]) lefts (Nat.succ.inj hlength)
          rw [List.append_assoc, List.append_assoc, List.append_assoc,
            List.singleton_append, List.singleton_append,
            List.singleton_append] at hinner
          rw [List.cons_append, hinner]
          exact reduceGroup_grown_join hbase kept operator others left _

theorem reduceGroup_grown_enough (hbase : base.IsFresh) {operators : List OperatorToken}
    {values : List Expr} (henough : operators.length < values.length) :
    ∃ others lefts last, values = others ++ (lefts ++ [last]) ∧
      lefts.length = operators.length ∧
      (base.grown operators values).reduceGroup .building =
        .done (base.grown [] (others ++ [chained operators lefts last])) := by
  let spare := values.length - (operators.length + 1)
  have hreach : (values.drop spare).length = operators.length + 1 := by
    rw [List.length_drop]
    omega
  obtain ⟨lefts, last, htaken⟩ :=
    (values.drop spare).eq_nil_or_concat'.resolve_left
      (List.ne_nil_of_length_eq_add_one hreach)
  have hvalues : values = values.take spare ++ (lefts ++ [last]) := by
    rw [← htaken, List.take_append_drop]
  have hlength : lefts.length = operators.length := by
    rw [htaken, List.length_append, List.length_singleton] at hreach
    omega
  refine ⟨values.take spare, lefts, last, hvalues, hlength, ?_⟩
  have hchain :=
    reduceGroup_grown_chain hbase [] operators (values.take spare) lefts last hlength
  rw [List.nil_append, ← hvalues] at hchain
  rw [hchain, reduceGroup_grown_nil hbase]

theorem reduceGroup_grown_short (hbase : base.IsFresh) {operators : List OperatorToken}
    {values : List Expr} (hsome : 0 < operators.length)
    (hshort : values.length ≤ operators.length) :
    ∃ lacking remaining,
      operators[operators.length - max values.length 1]? = some lacking ∧
      remaining.length = min values.length 1 ∧
      (∀ lefts last, values = lefts ++ [last] →
        remaining =
          [chained (operators.drop (operators.length - max values.length 1 + 1))
            lefts last]) ∧
      (base.grown operators values).reduceGroup .building =
        .failed (.fault lacking.lack)
          (base.grown (operators.take (operators.length - max values.length 1))
            remaining) := by
  generalize hblamed : operators.length - max values.length 1 = blamed
  have hbound : blamed < operators.length := by omega
  have hsplit : operators = (operators.take blamed ++ [operators[blamed]]) ++
      operators.drop (blamed + 1) := by
    rw [List.take_append_getElem, List.take_append_drop]
  refine ⟨operators[blamed], ?_⟩
  rcases values.eq_nil_or_concat' with rfl | ⟨lefts, last, rfl⟩
  · have hnone : operators.drop (blamed + 1) = [] := by
      rw [List.length_nil] at hblamed
      exact List.drop_eq_nil_of_le (by omega)
    have hlack :=
      reduceGroup_grown_lack hbase (operators.take blamed) operators[blamed] []
        (Nat.zero_le 1)
    rw [hnone, List.append_nil] at hsplit
    rw [← hsplit] at hlack
    exact ⟨[], List.getElem?_eq_getElem hbound, rfl, by simp, hlack⟩
  · have hlength : lefts.length = (operators.drop (blamed + 1)).length := by
      rw [List.length_append, List.length_singleton] at hblamed hshort
      rw [List.length_drop]
      omega
    let joined := chained (operators.drop (blamed + 1)) lefts last
    have hchain :=
      reduceGroup_grown_chain hbase (operators.take blamed ++ [operators[blamed]])
        (operators.drop (blamed + 1)) [] lefts last hlength
    have hlack :=
      reduceGroup_grown_lack hbase (operators.take blamed) operators[blamed]
        [joined] le_rfl
    rw [← hsplit, List.nil_append, List.nil_append, hlack] at hchain
    refine ⟨[joined], List.getElem?_eq_getElem hbound, by simp,
      fun others other hvalues => ?_, hchain⟩
    obtain ⟨rfl, hlast⟩ := List.append_inj' hvalues rfl
    cases hlast
    rfl

/-- What becomes of the operators and operands of a group.  Without operators nothing
does.  With more operands than operators the latest operands are joined to one
expression, and the others stay.  With fewer, a missing operand is reported at the
operator that finds less than two operands: the operators behind it are gone, and of the
operands one is left, if there was any. -/
theorem reduceGroup_joins_or_lacks (hbase : base.IsFresh)
    (operators : List OperatorToken) (values : List Expr) :
    (operators = [] →
      (base.grown operators values).reduceGroup .building =
        .done (base.grown operators values)) ∧
      (operators.length < values.length →
        ∃ others lefts last, values = others ++ (lefts ++ [last]) ∧
          lefts.length = operators.length ∧
          (base.grown operators values).reduceGroup .building =
            .done (base.grown [] (others ++ [chained operators lefts last]))) ∧
      (0 < operators.length → values.length ≤ operators.length →
        let blamed := operators.length - max values.length 1
        ∃ lacking remaining, operators[blamed]? = some lacking ∧
          remaining.length = min values.length 1 ∧
          (∀ lefts last, values = lefts ++ [last] →
            remaining = [chained (operators.drop (blamed + 1)) lefts last]) ∧
          lacking.lack.Reports .missingOperand (some lacking.token.position) none ∧
          (base.grown operators values).reduceGroup .building =
            .failed (.fault lacking.lack)
              (base.grown (operators.take blamed) remaining)) := by
  refine ⟨?_, reduceGroup_grown_enough hbase, fun hsome hshort => ?_⟩
  · rintro rfl
    exact reduceGroup_grown_nil hbase values
  · obtain ⟨lacking, remaining, hlacking, hlength, hremaining, hreduce⟩ :=
      reduceGroup_grown_short hbase hsome hshort
    exact ⟨lacking, remaining, hlacking, hlength, hremaining,
      lacking.lack_reports, hreduce⟩

/-- Behind the first argument of a call, the product takes both operands of the second
one, and the difference in front of it is blamed. -/
theorem difference_in_call_lacks_operand :
    let base : Stacks := ⟨⟨[.number (some 9)], []⟩,
      [.group ⟨3, 1, true⟩, .token ⟨.function, "max", 0, none⟩]⟩
    let minus : OperatorToken := ⟨⟨.operator .sub, "-", 7, none⟩, .sub, rfl⟩
    let times : OperatorToken := ⟨⟨.operator .mul, "*", 9, none⟩, .mul, rfl⟩
    let two : Expr := .number (some 2)
    let pi : Expr := .constant "pi" (some 3.14)
    base.IsFresh ∧
      (base.grown [minus, times] [two, pi]).reduceGroup .building =
        .failed (.fault (.located 7 (.missingOperand "-")))
          (base.grown [] [.apply (.operator .mul) two pi]) := by
  intro base minus times two pi
  have hbase : base.IsFresh := ⟨nofun, rfl⟩
  obtain ⟨lacking, remaining, hlacking, -, hremaining, -, hreduce⟩ :=
    (reduceGroup_joins_or_lacks hbase [minus, times] [two, pi]).2.2 (by decide)
      (by decide)
  cases hlacking
  rw [hremaining [two] pi rfl] at hreduce
  exact ⟨hbase, hreduce⟩

end InfixCalc
