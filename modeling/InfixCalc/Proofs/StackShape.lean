import InfixCalc.Proofs.FoldingAgreement
import InfixCalc.Proofs.Safety
import InfixCalc.Proofs.Soundness

/-!
# The shape of the stacks between two tokens

Wherever a reader is in well-formed tokens, its stacks fit together.  A call lies on
its function and an operator on one that leaves it the operand between them.  Cut at
the groups, the stacks hold an operand in front of every operator that waits, and
one more where an operand has just been read.  So what the next token asks to be
joined can be joined.
-/

namespace InfixCalc

/-! ## Shape -/

/-- The number of operators that wait inside the innermost group. -/
def waitingOperators : List Pending → Nat
  | .token token :: rest =>
    waitingOperators rest + if token.kind.isOperator then 1 else 0
  | _ => 0

/-- Of so many operands in all, the innermost group holds one for each operator that
waits in it and `complete` further ones.  Only the group of a call may hold more. -/
def SegmentFits (pending : List Pending) (count complete : Nat) : Prop :=
  let needed := floor pending + (waitingOperators pending + complete)
  needed ≤ count ∧ ((innermost pending).any Group.call = false → count = needed)

/-- An entry may lie on these.  A group lies on a function if and only if it is a call,
and what it holds back fits the operators below it.  A token lies on no function, and an
operator on one that does not take the operand between them. -/
def Pending.Suits : Pending → List Pending → Prop
  | .group opened, below =>
    (opened.call = true ↔
        ∃ function rest, below = .token function :: rest ∧ function.kind = .function) ∧
      SegmentFits below opened.depth 0
  | .token later, .token earlier :: _ =>
    earlier.kind ≠ .function ∧ ∃ former, earlier.operator = .ok (some former) ∧
      ∀ latter, later.operator = .ok (some latter) → former.leftFirst latter = false
  | .token _, _ => True

/-- The stacks fit together behind this token. -/
structure Stacks.IsWellShaped (previous : Option Token) (state : Stacks) : Prop where
  entries : ∀ entry below, entry :: below <:+ state.pending → entry.Suits below
  /-- Without its group a function lies there only when it has just been read. -/
  latest : ∀ function below, state.pending = .token function :: below →
    function.kind = .function → previous = some function
  innermost : SegmentFits state.pending state.operands.values.length
    (endsOperand previous).toNat

/-! ## Operands -/

theorem Frame.kind_isOperator (frame : Frame) : frame.token.kind.isOperator = true :=
  Token.isOperator_of_role frame.means

/-- In front of the frames lies the group that they are in, if there is one. -/
theorem outerPending_cases (outer : List Enclosure) :
    outerPending outer = [] ∨
      ∃ opened below, outerPending outer = .group opened :: below := by
  match outer with
  | [] => exact .inl rfl
  | ⟨.plain _, _⟩ :: _ => exact .inr ⟨_, _, rfl⟩
  | ⟨.call _ _ _ _ _, _⟩ :: _ => exact .inr ⟨_, _, rfl⟩

theorem waitingOperators_waiting (frames : List Frame) (outer : List Enclosure) :
    waitingOperators (waiting frames ++ outerPending outer) = frames.length := by
  induction frames with
  | nil =>
      change waitingOperators (outerPending outer) = 0
      rcases outerPending_cases outer with hnone | ⟨opened, below, hopened⟩
      · rw [hnone]; rfl
      · rw [hopened]; rfl
  | cons frame frames ih =>
      change waitingOperators (waiting frames ++ outerPending outer) + _ = _
      rw [ih, if_pos frame.kind_isOperator, List.length_cons]

theorem innerArguments_of_plain {outer : List Enclosure}
    (hplain : (outer.head?.any fun enclosure => enclosure.opener.isCall) = false) :
    innerArguments outer = [] := by
  match outer, hplain with
  | [], _ => rfl
  | ⟨.plain _, _⟩ :: _, _ => rfl

/-- Frames have their left operands on the stack, and only a call has other
operands beside them. -/
theorem segmentFits_waiting (frames : List Frame) (outer : List Enclosure)
    (latest : List Expr) :
    SegmentFits (waiting frames ++ outerPending outer)
      (latest ++ (lefts frames ++ outerValues outer)).length latest.length := by
  have hcount : (latest ++ (lefts frames ++ outerValues outer)).length =
      latest.length +
        (frames.length +
          ((innerArguments outer).length + (coveredValues outer).length)) := by
    simp only [outerValues_eq, List.length_append, lefts, List.length_map]
  unfold SegmentFits
  rw [hcount, floor_waiting, floor_outerPending, waitingOperators_waiting,
    innermost_waiting, any_call_outerPending]
  refine ⟨by omega, fun hplain => ?_⟩
  rw [innerArguments_of_plain hplain, List.length_nil]
  omega

/-- A function neither waits for operands nor encloses any. -/
theorem SegmentFits.function {function : Token} {pending : List Pending}
    {count complete : Nat} (hkind : function.kind = .function)
    (hfits : SegmentFits pending count complete) :
    SegmentFits (.token function :: pending) count complete := by
  have hwaiting : waitingOperators (.token function :: pending) =
      waitingOperators pending := by
    simp only [waitingOperators, hkind, Kind.isOperator, Bool.false_eq_true, if_false,
      Nat.add_zero]
  unfold SegmentFits
  rw [hwaiting]
  exact hfits

/-! ## Entries -/

/-- Every entry may lie where it lies. -/
def Stacked (pending : List Pending) : Prop :=
  ∀ entry below, entry :: below <:+ pending → entry.Suits below

theorem stacked_nil : Stacked [] :=
  fun _ _ hsuffix => absurd (List.suffix_nil.mp hsuffix) nofun

theorem Stacked.cons {entry : Pending} {below : List Pending} (hbelow : Stacked below)
    (hentry : entry.Suits below) : Stacked (entry :: below) := by
  intro upper lower hsuffix
  rcases List.suffix_cons_iff.mp hsuffix with hwhole | hrest
  · cases hwhole
    exact hentry
  · exact hbelow upper lower hrest

/-- Where no function has just been read, none is the latest entry. -/
theorem kind_ne_function_of_waiting {frames : List Frame} {outer : List Enclosure}
    {token : Token} {below : List Pending}
    (hlatest : waiting frames ++ outerPending outer = .token token :: below) :
    token.kind ≠ .function := by
  cases frames with
  | nil =>
      change outerPending outer = _ at hlatest
      rcases outerPending_cases outer with hnone | ⟨opened, around, hopened⟩
      · rw [hnone] at hlatest; cases hlatest
      · rw [hopened] at hlatest; cases hlatest
  | cons frame frames =>
      cases hlatest
      intro hkind
      have hoperator := frame.kind_isOperator
      rw [hkind] at hoperator
      cases hoperator

theorem suits_waiting {frames : List Frame} {level : Nat} {tokens : List Token}
    (hframes : FramesRead true frames level tokens) {later : Token}
    (hlevel : ∀ latter, later.operator = .ok (some latter) → level ≤ latter.level)
    (outer : List Enclosure) :
    (Pending.token later).Suits (waiting frames ++ outerPending outer) := by
  cases hframes with
  | nil =>
      change (Pending.token later).Suits (outerPending outer)
      rcases outerPending_cases outer with hnone | ⟨opened, below, hopened⟩
      · rw [hnone]; exact trivial
      · rw [hopened]; exact trivial
  | @cons frame frames =>
      have hlatest : waiting (frame :: frames) ++ outerPending outer =
          .token frame.token :: (waiting frames ++ outerPending outer) := rfl
      refine ⟨kind_ne_function_of_waiting hlatest, frame.op,
        Token.operator_of_role frame.means, fun latter hlatter => ?_⟩
      exact (Op.leftFirst_eq_false_iff _ _).mpr (hlevel latter hlatter)

theorem stacked_waiting {frames : List Frame} {level : Nat} {tokens : List Token}
    (hframes : FramesRead true frames level tokens) {outer : List Enclosure}
    (houter : Stacked (outerPending outer)) :
    Stacked (waiting frames ++ outerPending outer) := by
  induction hframes with
  | nil => exact houter
  | @cons frame frames level tokens operand hframes hbelow hleft ih =>
      refine ih.cons (suits_waiting hframes (fun latter hlatter => ?_) outer)
      rw [Token.operator_of_role frame.means] at hlatter
      cases hlatter
      exact hbelow

theorem suits_function {function : Token} {fn : Fn}
    (means : function.role? = some (.function fn)) {frames : List Frame} {level : Nat}
    {tokens : List Token} (hframes : FramesRead true frames level tokens)
    (outer : List Enclosure) :
    (Pending.token function).Suits (waiting frames ++ outerPending outer) := by
  have hoperator : function.operator = .ok none := by
    simp only [Token.operator, (Token.kind_of_role means).1, Kind.isOperator]
  refine suits_waiting hframes (fun latter hlatter => ?_) outer
  rw [hoperator] at hlatter
  cases hlatter

theorem stacked_outerPending {outer : List Enclosure} {tokens : List Token}
    (houter : EnclosuresRead outer tokens) : Stacked (outerPending outer) := by
  induction houter with
  | nil => exact stacked_nil
  | @cons opener frames rest level outside around inside hrest hframes hopener ih =>
      have haround := stacked_waiting hframes ih
      have hfits := segmentFits_waiting frames rest []
      cases opener with
      | plain position =>
          refine haround.cons ⟨⟨nofun, ?_⟩, hfits⟩
          rintro ⟨function, below, hlatest, hkind⟩
          exact absurd hkind (kind_ne_function_of_waiting hlatest)
      | call function fn means position arguments =>
          have hkind := (Token.kind_of_role means).1
          have hfunction := haround.cons (suits_function means hframes rest)
          exact hfunction.cons
            ⟨⟨fun _ => ⟨function, _, rfl, hkind⟩, fun _ => rfl⟩, hfits.function hkind⟩

/-! ## Readers -/

theorem Focus.Follows.length_values {focus : Focus} {previous : Option Token}
    (hfollows : focus.Follows previous) :
    focus.values.length = (endsOperand previous).toNat := by
  cases focus with
  | operand => rw [hfollows.2]; rfl
  | function token fn means => rw [hfollows.2]; rfl
  | complete last => rw [hfollows.2]; rfl

theorem Focus.Follows.exists_complete {focus : Focus} {previous : Option Token}
    (hfollows : focus.Follows previous) (hends : endsOperand previous = true) :
    ∃ last, focus = .complete last := by
  cases focus with
  | complete last => exact ⟨last, rfl⟩
  | operand => exact absurd (hfollows.2.symm.trans hends) Bool.false_ne_true
  | function token fn means =>
      exact absurd (hfollows.2.symm.trans hends) Bool.false_ne_true

/-- The stacks of a nest that has read its tokens fit together. -/
theorem NestRead.isWellShaped {nest : Nest} {tokens : List Token}
    (hnest : NestRead nest tokens) {previous : Option Token}
    (hfollows : nest.focus.Follows previous) : nest.stacks.IsWellShaped previous := by
  obtain ⟨focus, frames, outer⟩ := nest
  obtain ⟨outside, level, inside, latest, houter, hframes, -, -⟩ := hnest
  have hstacked := stacked_waiting hframes (stacked_outerPending houter)
  have hfits := segmentFits_waiting frames outer focus.values
  rw [hfollows.length_values] at hfits
  have hoperator (function : Token) (below : List Pending)
      (hlatest : waiting frames ++ outerPending outer = .token function :: below)
      (hkind : function.kind = .function) : previous = some function :=
    absurd hkind (kind_ne_function_of_waiting hlatest)
  cases focus with
  | operand => exact ⟨hstacked, hoperator, hfits⟩
  | complete last => exact ⟨hstacked, hoperator, hfits⟩
  | function function fn means =>
      have hkind := (Token.kind_of_role means).1
      refine ⟨hstacked.cons (suits_function means hframes outer),
        fun token below hlatest _ => ?_, hfits.function hkind⟩
      cases hlatest
      exact (uncalled_eq_some hfollows.1).1

/-- Everything that the next token may ask to be joined can be joined. -/
def Stacks.Joins (mode : Mode) (state : Stacks) : Prop :=
  (∀ token, token.isWellFormed = true → token.kind.isOperator = true →
      ∃ reduced, state.reduceBefore mode token = .done reduced) ∧
    ∃ reduced, state.reduceGroup mode = .done reduced

/-- Behind an operand, all that waits in front of it finds its operands. -/
theorem Nest.joins {nest : Nest} {last : Expr} (hfocus : nest.focus = .complete last) :
    nest.stacks.Joins .building := by
  obtain ⟨focus, frames, outer⟩ := nest
  cases hfocus
  constructor
  · intro token hformed hoperator
    obtain ⟨role, means⟩ := Token.exists_role hformed
    rw [Token.isOperator_of_role means] at hoperator
    cases role with
    | operator op => exact ⟨_, reduceBefore_stacks means last frames outer⟩
    | operand expr => cases hoperator
    | function fn => cases hoperator
    | opening => cases hoperator
    | closing => cases hoperator
  · exact ⟨_, reduceGroup_stacks ⟨.complete last, frames, outer⟩ rfl⟩

/-- The stacks that are reached while expressions are kept are those of a nest. -/
theorem exists_nest_of_reached {tokens : List Token} {previous : Option Token}
    {state : Stacks} (hreached : Reached .building tokens previous state)
    (hformed : ∀ token ∈ tokens, token.isWellFormed = true) :
    ∃ nest, NestRead nest tokens ∧ nest.focus.Follows previous ∧
      state = nest.stacks := by
  induction hreached with
  | start => exact ⟨.start, nestRead_start, follows_start, rfl⟩
  | @read tokens previous token state next _ hread ih =>
      obtain ⟨hbefore, htoken⟩ := List.forall_mem_append.mp hformed
      obtain ⟨nest, hnest, hfollows, rfl⟩ := ih hbefore
      obtain ⟨role, means⟩ :=
        Token.exists_role (htoken token (List.mem_singleton_self token))
      have hmatches := readToken_stacks nest hfollows means
      rw [hread] at hmatches
      obtain ⟨further, hstep, rfl⟩ := hmatches.exists_of_done
      exact ⟨further, hnest.read means hstep, follows_of_read means hstep, rfl⟩

theorem built_stacks_fit {tokens : List Token} {previous : Option Token}
    {state : Stacks} (hreached : Reached .building tokens previous state)
    (hformed : ∀ token ∈ tokens, token.isWellFormed = true) :
    state.IsWellShaped previous ∧
      (endsOperand previous = true → state.Joins .building) := by
  obtain ⟨nest, hnest, hfollows, rfl⟩ := exists_nest_of_reached hreached hformed
  refine ⟨hnest.isWellShaped hfollows, fun hends => ?_⟩
  obtain ⟨last, hfocus⟩ := hfollows.exists_complete hends
  exact Nest.joins hfocus

/-- While foldings are made, the stacks agree with those that keep the expressions. -/
theorem exists_built_of_reached {meaning : Meaning} {tokens : List Token}
    {previous : Option Token} {state : Stacks}
    (hreached : Reached (.folding meaning) tokens previous state)
    (hformed : ∀ token ∈ tokens, token.isWellFormed = true) :
    ∃ built, Reached .building tokens previous built ∧
      StacksAgree meaning state built := by
  induction hreached with
  | start => exact ⟨.empty, .start, operandsAgree_empty, rfl⟩
  | @read tokens previous token state next _ hread ih =>
      obtain ⟨hbefore, htoken⟩ := List.forall_mem_append.mp hformed
      obtain ⟨built, hbuilt, hagree⟩ := ih hbefore
      have hstep :=
        readToken_agree previous (htoken token (List.mem_singleton_self token)) hagree
      rw [hread] at hstep
      rcases hstep.cases with
        ⟨failure, folded, left, hfailed, -⟩ | ⟨folded, further, hdone, hkept, hnext⟩
      · cases hfailed
      · cases hdone
        exact ⟨further, hbuilt.read hkept, hnext⟩

theorem StacksAgree.isWellShaped {meaning : Meaning} {folded built : Stacks}
    (hagree : StacksAgree meaning folded built) {previous : Option Token}
    (hbuilt : built.IsWellShaped previous) : folded.IsWellShaped previous := by
  obtain ⟨hentries, hlatest, hinnermost⟩ := hbuilt
  rw [← hagree.pending] at hentries hlatest hinnermost
  rw [← hagree.operands.length_eq] at hinnermost
  exact ⟨hentries, hlatest, hinnermost⟩

theorem OutcomesAgree.exists_done {meaning : Meaning} {folded built : Outcome}
    (hagree : OutcomesAgree meaning folded built)
    (hbuilt : ∃ state, built = .done state) : ∃ state, folded = .done state := by
  obtain ⟨state, rfl⟩ := hbuilt
  cases hagree with
  | done => exact ⟨_, rfl⟩

theorem StacksAgree.joins {meaning : Meaning} {folded built : Stacks}
    (hagree : StacksAgree meaning folded built) (hbuilt : built.Joins .building) :
    folded.Joins (.folding meaning) :=
  ⟨fun token hformed hoperator =>
      (reduceBefore_agree token hagree).exists_done (hbuilt.1 token hformed hoperator),
    (reduceGroup_agree hagree).exists_done hbuilt.2⟩

/-- Wherever a reader is in well-formed tokens, its stacks fit together, and behind
an operand neither an operator nor the end of an argument finds anything that
cannot be joined. -/
theorem reached_stacks_fit (mode : Mode) {tokens : List Token}
    (hformed : ∀ token ∈ tokens, token.isWellFormed = true) {previous : Option Token}
    {state : Stacks} (hreached : Reached mode tokens previous state) :
    state.IsWellShaped previous ∧ (endsOperand previous = true → state.Joins mode) := by
  cases mode with
  | building => exact built_stacks_fit hreached hformed
  | folding meaning =>
      obtain ⟨built, hbuilt, hagree⟩ := exists_built_of_reached hreached hformed
      obtain ⟨hshaped, hjoins⟩ := built_stacks_fit hbuilt hformed
      exact ⟨hagree.isWellShaped hshaped, fun hends => hagree.joins (hjoins hends)⟩

/-- In a call behind a sum, its first argument lies beside the operands of the
product. -/
theorem second_argument_fits :
    let one : Token := ⟨.number, "1", 0, some 1⟩
    let plus : Token := ⟨.operator .add, "+", 2, none⟩
    let function : Token := ⟨.function, "max", 4, none⟩
    let opening : Token := ⟨.openParen, "(", 7, none⟩
    let two : Token := ⟨.number, "2", 8, some 2⟩
    let three : Token := ⟨.number, "3", 10, some 3⟩
    let times : Token := ⟨.operator .mul, "*", 12, none⟩
    let four : Token := ⟨.number, "4", 14, some 4⟩
    let tokens := [one, plus, function, opening, two, three, times, four]
    let state : Stacks :=
      ⟨⟨[.number (some 4), .number (some 3), .number (some 2), .number (some 1)], []⟩,
        [.token times, .group ⟨7, 1, true⟩, .token function, .token plus]⟩
    (∀ token ∈ tokens, token.isWellFormed = true) ∧
      Reached .building tokens (some four) state ∧ state.IsWellShaped (some four) ∧
      endsOperand (some four) = true ∧ state.Joins .building := by
  intro one plus function opening two three times four tokens state
  have hformed : ∀ token ∈ tokens, token.isWellFormed = true := by decide
  have hone := @Reached.read .building [] none one _ _ .start rfl
  have hplus := @Reached.read .building [one] _ plus _ _ hone rfl
  have hcall := @Reached.read .building [one, plus] _ function _ _ hplus rfl
  have hopened := @Reached.read .building [one, plus, function] _ opening _ _ hcall rfl
  have htwo :=
    @Reached.read .building [one, plus, function, opening] _ two _ _ hopened rfl
  have hthree :=
    @Reached.read .building [one, plus, function, opening, two] _ three _ _ htwo rfl
  have htimes :=
    @Reached.read .building [one, plus, function, opening, two, three] _ times _ _
      hthree rfl
  have hreached : Reached .building tokens (some four) state :=
    @Reached.read .building [one, plus, function, opening, two, three, times] _ four _ _
      htimes rfl
  obtain ⟨hshaped, hjoins⟩ := reached_stacks_fit .building hformed hreached
  exact ⟨hformed, hreached, hshaped, rfl, hjoins rfl⟩

end InfixCalc
