import InfixCalc.Proofs.NestRuns

/-!
# What the grammar derives is read

Reading a phrase leaves its operators as frames of the nest it was read in, and
joining these gives the expression of the phrase.  Frames that were there before are
not touched: an operator of the phrase takes nothing from an operator that may have
the phrase on its right.
-/

namespace InfixCalc

/-- The latest frame may have a phrase of this level as its right operand. -/
def Awaiting (frames : List Frame) (level : Nat) : Prop :=
  ∀ frame ∈ frames.head?, frame.op.rightLevel ≤ level

theorem awaiting_nil (level : Nat) : Awaiting [] level := by
  intro frame hmem
  cases hmem

theorem Awaiting.mono {frames : List Frame} {level above : Nat}
    (hawaiting : Awaiting frames level) (hlevel : level ≤ above) :
    Awaiting frames above :=
  fun frame hmem => (hawaiting frame hmem).trans hlevel

/-- An operator takes all frames of its left operand and none of those below. -/
theorem takeWhile_frames {op : Op} {inner frames : List Frame}
    (hinner : ∀ frame ∈ inner, op.leftLevel ≤ frame.op.level)
    (hawaiting : Awaiting frames op.level) :
    (inner ++ frames).takeWhile (fun frame => frame.op.leftFirst op) = inner ∧
      (inner ++ frames).dropWhile (fun frame => frame.op.leftFirst op) = frames := by
  have hall : ∀ frame ∈ inner, frame.op.leftFirst op = true :=
    fun frame hmem => (Op.leftFirst_iff _ _).mpr (hinner frame hmem)
  rw [List.takeWhile_append_of_pos hall, List.dropWhile_append_of_pos hall]
  cases frames with
  | nil => exact ⟨List.append_nil inner, rfl⟩
  | cons frame frames =>
      have hstays : frame.op.leftFirst op = false :=
        (Op.leftFirst_eq_false_iff _ _).mpr (hawaiting frame rfl)
      rw [List.takeWhile_cons_of_neg (by simp [hstays]),
        List.dropWhile_cons_of_neg (by simp [hstays])]
      exact ⟨List.append_nil inner, rfl⟩

/-- Behind an operand, an operator becomes the latest frame. -/
theorem run_operator {op : Op} {token : Token}
    (means : token.role? = some (.operator op)) {inner frames : List Frame}
    {last : Expr} (outer : List Enclosure)
    (hinner : ∀ frame ∈ inner, op.leftLevel ≤ frame.op.level)
    (hawaiting : Awaiting frames op.level) :
    Nest.Run ⟨.complete last, inner ++ frames, outer⟩ [token]
      ⟨.operand, ⟨joinAll inner last, token, op, means⟩ :: frames, outer⟩ := by
  obtain ⟨htake, hdrop⟩ := takeWhile_frames hinner hawaiting
  refine .single means ?_
  simp only [Nest.read, Nest.readBehind, htake, hdrop]

theorem run_closing {closing : Token} (means : closing.role? = some .closing)
    {nest next : Nest} {operands : List Expr} (hfocus : nest.focus.isFunction = false)
    (hsettled : nest.settled = .ok operands)
    (hclose : Nest.closeWith operands nest.outer closing.position = .ok next) :
    Nest.Run nest [closing] next := by
  refine .single means ?_
  have hread : nest.read closing .closing means = nest.close closing.position := by
    obtain ⟨focus, frames, outer⟩ := nest
    cases focus with
    | function function fn known => cases hfocus
    | operand => rfl
    | complete last => rfl
  rw [hread, Nest.close, hsettled]
  exact hclose

theorem run_openCall {function opening : Token} {fn : Fn}
    (means : function.role? = some (.function fn))
    (hopening : opening.role? = some .opening) (frames : List Frame)
    (outer : List Enclosure) :
    Nest.Run ⟨.operand, frames, outer⟩ [function, opening]
      ⟨.operand, [], ⟨.call function fn means opening.position [], frames⟩ :: outer⟩ :=
  .cons means rfl (.single hopening rfl)

/-- An argument is read behind another one as it is read on its own. -/
theorem run_nextArgument {nest next final : Nest} {last : Expr} {tokens : List Token}
    (hfocus : nest.focus = .complete last) (hnext : nest.nextArgument? last = some next)
    (hnextFocus : next.focus = .operand)
    (hfirst : ∃ first rest role, tokens = first :: rest ∧ first.role? = some role ∧
      role.startsOperand = true)
    (hrun : Nest.Run next tokens final) : Nest.Run nest tokens final := by
  obtain ⟨first, rest, role, rfl, hrole, hstarts⟩ := hfirst
  cases hrun with
  | cons means hread hrest =>
      obtain rfl := Option.some.inj (means.symm.trans hrole)
      refine .cons means ?_ hrest
      rw [← hread]
      simp only [Nest.read, hfocus, hnextFocus]
      rw [Nest.readBehind_of_starts _ _ means hstarts, hnext]

/-! ## Phrases -/

/-- What it is to read a phrase: its operators are left as frames. -/
def Leaves (tokens : List Token) : Phrase → Prop
  | .complete level expr =>
    ∀ frames outer, Awaiting frames level → ∃ inner last,
      Nest.Run ⟨.operand, frames, outer⟩ tokens
      ⟨.complete last, inner ++ frames, outer⟩ ∧
        joinAll inner last = expr ∧ ∀ frame ∈ inner, level ≤ frame.op.level
  | .lacking level given result =>
    ∀ frames outer, Awaiting frames level → ∃ inner frame,
      Nest.Run ⟨.operand, frames, outer⟩ tokens
          ⟨.operand, frame :: inner ++ frames, outer⟩ ∧
        hang id (frame :: inner) given = result

/-- Reading whole arguments fills the call they are read in. -/
theorem run_argument {tokens : List Token} {expr : Expr}
    (hleaves : Leaves tokens (.complete exprLevel expr)) {function : Token} {fn : Fn}
    (means : function.role? = some (.function fn)) (position : Int)
    (arguments : List Expr) (around : List Frame) (rest : List Enclosure) :
    ∃ inner last,
      Nest.Run ⟨.operand, [],
        ⟨.call function fn means position arguments, around⟩ :: rest⟩
          tokens
          ⟨.complete last, inner,
            ⟨.call function fn means position arguments, around⟩ :: rest⟩ ∧
        joinAll inner last = expr := by
  obtain ⟨inner, last, hrun, hjoin, -⟩ := hleaves [] _ (awaiting_nil _)
  rw [List.append_nil] at hrun
  exact ⟨inner, last, hrun, hjoin⟩

/-- Two arguments behind the head of a call. -/
theorem run_twoArguments {lenient : Bool} {firsts seconds : List Token}
    {first second : Expr}
    (hsecond : Derives lenient (.complete exprLevel second) seconds)
    (hleavesFirst : Leaves firsts (.complete exprLevel first))
    (hleavesSecond : Leaves seconds (.complete exprLevel second))
    {function opening : Token} {fn : Fn} (means : function.role? = some (.function fn))
    (hopening : opening.role? = some .opening) (frames : List Frame)
    (outer : List Enclosure) :
    ∃ inner last,
      Nest.Run ⟨.operand, frames, outer⟩ (function :: opening :: (firsts ++ seconds))
          ⟨.complete last, inner,
            ⟨.call function fn means opening.position [first], frames⟩ :: outer⟩ ∧
        joinAll inner last = second := by
  obtain ⟨before, closingFirst, hrunFirst, hjoinFirst⟩ :=
    run_argument hleavesFirst means opening.position [] frames outer
  obtain ⟨inner, last, hrunSecond, hjoinSecond⟩ :=
    run_argument hleavesSecond means opening.position [first] frames outer
  have hbehind : Nest.Run
      ⟨.complete closingFirst, before,
        ⟨.call function fn means opening.position [], frames⟩ :: outer⟩ seconds
      ⟨.complete last, inner,
        ⟨.call function fn means opening.position [first], frames⟩ :: outer⟩ := by
    refine run_nextArgument rfl ?_ rfl hsecond.exists_first hrunSecond
    simp only [Nest.nextArgument?, hjoinFirst]
  have hhead := run_openCall means hopening frames outer
  exact ⟨inner, last, hhead.append (hrunFirst.append hbehind), hjoinSecond⟩

/-- A left operand and its operator leave one frame. -/
theorem run_leftOperand {lefts : List Token} {left : Expr} {op : Op} {token : Token}
    (means : token.role? = some (.operator op))
    (hleaves : Leaves lefts (.complete op.leftLevel left)) {frames : List Frame}
    (outer : List Enclosure) (hawaiting : Awaiting frames op.level) :
    Nest.Run ⟨.operand, frames, outer⟩ (lefts ++ [token])
      ⟨.operand, ⟨left, token, op, means⟩ :: frames, outer⟩ := by
  obtain ⟨inner, last, hrun, rfl, hinner⟩ :=
    hleaves frames outer (hawaiting.mono op.level_le_leftLevel)
  exact hrun.append (run_operator means outer hinner hawaiting)

theorem awaiting_frame (frame : Frame) (frames : List Frame) :
    Awaiting (frame :: frames) frame.op.rightLevel := by
  intro latest hmem
  cases hmem
  exact le_rfl

theorem leaves_operand {token : Token} {expr : Expr}
    (hrole : token.role? = some (.operand expr)) :
    Leaves [token] (.complete operandLevel expr) := by
  intro frames outer _
  exact ⟨[], expr, .single hrole rfl, rfl, by simp⟩

theorem Leaves.group {opening closing : Token} {tokens : List Token} {expr : Expr}
    (hopening : opening.role? = some .opening)
    (hclosing : closing.role? = some .closing)
    (hinside : Leaves tokens (.complete exprLevel expr)) :
    Leaves (opening :: (tokens ++ [closing])) (.complete operandLevel expr) := by
  intro frames outer _
  obtain ⟨inner, last, hrun, hjoin, -⟩ :=
    hinside [] (⟨.plain opening.position, frames⟩ :: outer) (awaiting_nil _)
  have hopen : Nest.Run ⟨.operand, frames, outer⟩ [opening]
      ⟨.operand, [], ⟨.plain opening.position, frames⟩ :: outer⟩ := .single hopening rfl
  have hclose : Nest.Run
      ⟨.complete last, inner ++ [], ⟨.plain opening.position, frames⟩ :: outer⟩
      [closing] ⟨.complete expr, frames, outer⟩ := by
    refine run_closing hclosing rfl rfl ?_
    simp only [List.append_nil, hjoin]
    rfl
  exact ⟨[], expr, hopen.append (hrun.append hclose), rfl, by simp⟩

theorem Leaves.call {lenient : Bool} {function opening closing : Token} {fn : Fn}
    {firsts seconds : List Token} {first second : Expr}
    (means : function.role? = some (.function fn))
    (hopening : opening.role? = some .opening)
    (hclosing : closing.role? = some .closing)
    (hderives : Derives lenient (.complete exprLevel second) seconds)
    (hfirst : Leaves firsts (.complete exprLevel first))
    (hsecond : Leaves seconds (.complete exprLevel second)) :
    Leaves (function :: opening :: (firsts ++ (seconds ++ [closing])))
      (.complete operandLevel (.apply (.function fn) first second)) := by
  intro frames outer _
  obtain ⟨inner, last, hrun, hjoin⟩ :=
    run_twoArguments hderives hfirst hsecond means hopening frames outer
  have hclose : Nest.Run
      ⟨.complete last, inner,
        ⟨.call function fn means opening.position [first], frames⟩ :: outer⟩ [closing]
      ⟨.complete (.apply (.function fn) first second), frames, outer⟩ := by
    refine run_closing hclosing rfl rfl ?_
    simp only [hjoin]
    rfl
  have hwhole := hrun.append hclose
  simp only [List.cons_append, List.append_assoc] at hwhole
  exact ⟨[], _, hwhole, rfl, by simp⟩

theorem Leaves.lower {level : Nat} {expr : Expr} {tokens : List Token}
    (habove : Leaves tokens (.complete (level + 1) expr)) :
    Leaves tokens (.complete level expr) := by
  intro frames outer hawaiting
  obtain ⟨inner, last, hrun, hjoin, hinner⟩ :=
    habove frames outer (hawaiting.mono (Nat.le_succ _))
  exact ⟨inner, last, hrun, hjoin,
    fun frame hmem => Nat.le_of_succ_le (hinner frame hmem)⟩

/-- The frame of an operation lies beneath those of its right operand. -/
theorem Leaves.operation {op : Op} {token : Token} {lefts rights : List Token}
    {left right : Expr} (means : token.role? = some (.operator op))
    (hleft : Leaves lefts (.complete op.leftLevel left))
    (hright : Leaves rights (.complete op.rightLevel right)) :
    Leaves (lefts ++ token :: rights)
      (.complete op.level (.apply (.operator op) left right)) := by
  intro frames outer hawaiting
  have hrunLeft := run_leftOperand means hleft outer hawaiting
  obtain ⟨inner, last, hrunRight, hjoin, hinner⟩ :=
    hright (⟨left, token, op, means⟩ :: frames) outer (awaiting_frame _ _)
  refine ⟨inner ++ [⟨left, token, op, means⟩], last, ?_, ?_, ?_⟩
  · have hwhole := hrunLeft.append hrunRight
    rwa [List.append_assoc, List.singleton_append, List.append_cons inner] at hwhole
  · rw [joinAll_append, hjoin]
    rfl
  · intro frame hmem
    rcases List.mem_append.mp hmem with hmem | hmem
    · exact op.level_le_rightLevel.trans (hinner frame hmem)
    · rw [List.mem_singleton.mp hmem]

/-- The operators of a third argument that breaks off are shifted onto the second
one. -/
theorem Leaves.lackingCall {lenient : Bool} {function opening closing : Token} {fn : Fn}
    {firsts seconds thirds : List Token} {first second result : Expr}
    (means : function.role? = some (.function fn))
    (hopening : opening.role? = some .opening)
    (hclosing : closing.role? = some .closing)
    (hderivesSecond : Derives lenient (.complete exprLevel second) seconds)
    (hderivesThird : Derives lenient (.lacking exprLevel second result) thirds)
    (hfirst : Leaves firsts (.complete exprLevel first))
    (hsecond : Leaves seconds (.complete exprLevel second))
    (hthird : Leaves thirds (.lacking exprLevel second result)) :
    Leaves (function :: opening :: (firsts ++ (seconds ++ (thirds ++ [closing]))))
      (.complete operandLevel (.apply (.function fn) first result)) := by
  intro frames outer _
  obtain ⟨inner, last, hrun, hjoin⟩ :=
    run_twoArguments hderivesSecond hfirst hsecond means hopening frames outer
  obtain ⟨more, frame, hrunThird, hhang⟩ := hthird []
    (⟨.call function fn means opening.position [second, first], frames⟩ :: outer)
    (awaiting_nil _)
  rw [List.append_nil] at hrunThird
  have hbehind : Nest.Run
      ⟨.complete last, inner,
        ⟨.call function fn means opening.position [first], frames⟩ :: outer⟩ thirds _ :=
    run_nextArgument rfl (by simp only [Nest.nextArgument?, hjoin]) rfl
      hderivesThird.exists_first hrunThird
  have hshifted : joinAll (shifted second frame more) frame.left = result := by
    rw [joinAll_shifted, ← hhang]
    rfl
  have hclose : Nest.Run
      ⟨.operand, frame :: more,
        ⟨.call function fn means opening.position [second, first], frames⟩ :: outer⟩
      [closing] ⟨.complete (.apply (.function fn) first result), frames, outer⟩ := by
    refine run_closing hclosing rfl rfl ?_
    rw [hshifted]
    rfl
  have hwhole := hrun.append (hbehind.append hclose)
  simp only [List.cons_append, List.append_assoc] at hwhole
  exact ⟨[], _, hwhole, rfl, by simp⟩

theorem Leaves.lastOperator {level : Nat} {op : Op} {token : Token}
    {tokens : List Token} {given expr : Expr}
    (means : token.role? = some (.operator op)) (hlevel : level ≤ op.level)
    (hoperand : Leaves tokens (.complete op.leftLevel expr)) :
    Leaves (tokens ++ [token])
      (.lacking level given (.apply (.operator op) given expr)) := by
  intro frames outer hawaiting
  exact ⟨[], _, run_leftOperand means hoperand outer (hawaiting.mono hlevel), rfl⟩

theorem Leaves.furtherOperator {level : Nat} {op : Op} {token : Token}
    {lefts rights : List Token} {given expr result : Expr}
    (means : token.role? = some (.operator op)) (hlevel : level ≤ op.level)
    (hoperand : Leaves lefts (.complete op.leftLevel expr))
    (hrest : Leaves rights (.lacking op.rightLevel expr result)) :
    Leaves (lefts ++ token :: rights)
      (.lacking level given (.apply (.operator op) given result)) := by
  intro frames outer hawaiting
  have hrunLeft := run_leftOperand means hoperand outer (hawaiting.mono hlevel)
  obtain ⟨inner, frame, hrunRest, hhang⟩ :=
    hrest (⟨expr, token, op, means⟩ :: frames) outer (awaiting_frame _ _)
  refine ⟨inner ++ [⟨expr, token, op, means⟩], frame, ?_, ?_⟩
  · have hwhole := hrunLeft.append hrunRest
    rwa [List.append_assoc, List.singleton_append,
      List.append_cons (frame :: inner)] at hwhole
  · rw [← List.cons_append, hang_append, hhang]

/-- Every phrase is read. -/
theorem leaves_of_derives {lenient : Bool} {phrase : Phrase} {tokens : List Token}
    (hderives : Derives lenient phrase tokens) : Leaves tokens phrase := by
  induction hderives with
  | operand hrole => exact leaves_operand hrole
  | group hopening hclosing _ ih => exact ih.group hopening hclosing
  | call means hopening hclosing _ hsecond ihfirst ihsecond =>
      exact ihfirst.call means hopening hclosing hsecond ihsecond
  | lower _ ih => exact ih.lower
  | operation means _ _ ihleft ihright => exact ihleft.operation means ihright
  | lackingCall _ means hopening hclosing _ hsecond hthird ihfirst ihsecond ihthird =>
      exact ihfirst.lackingCall means hopening hclosing hsecond hthird ihsecond ihthird
  | lastOperator means hlevel _ ih => exact ih.lastOperator means hlevel
  | furtherOperator means hlevel _ _ ihoperand ihrest =>
      exact ihoperand.furtherOperator means hlevel ihrest

/-- What the lenient grammar derives is read as the expression it derives. -/
theorem finish_of_readsLeniently {tokens : List Token} {expr : Expr}
    (hreads : ReadsLeniently tokens expr) :
    ∃ last, Nest.Run .start tokens last ∧ last.finish = .ok expr := by
  obtain ⟨inner, last, hrun, hjoin, -⟩ :=
    leaves_of_derives hreads [] [] (awaiting_nil _)
  rw [List.append_nil] at hrun
  refine ⟨_, hrun, ?_⟩
  rw [← hjoin]
  rfl

end InfixCalc
