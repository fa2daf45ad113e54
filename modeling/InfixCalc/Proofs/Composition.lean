import InfixCalc.Proofs.Gaps
import InfixCalc.Proofs.Rereading

/-!
# Texts put together

A stretch of text is cut into the same kinds of tokens wherever it begins, so what is
known of the tokens of two stretches decides what is known of the stretch they are put
together to.  A text that is read stands for its expression in every place that keeps it
apart from its neighbours, whatever it holds, even a third argument that breaks off or a
number too large for a double.
-/

namespace InfixCalc

/-! ## Stretches of text -/

/-- Wherever it begins, the stretch of text has tokens of this sort. -/
def CutsInto (chars : List Char) (sort : List Token → Prop) : Prop :=
  ∀ position, ∃ tokens, Tiling position chars tokens ∧ sort tokens

theorem classify_opening : classify '(' = .symbol .openParen := rfl

theorem classify_closing : classify ')' = .symbol .closeParen := rfl

theorem classify_fn (fn : Fn) :
    ∀ char ∈ fn.name.toList, classify char = .runMember .word := by
  cases fn <;> exact classify_of_all (by decide)

theorem wordToken_fn (fn : Fn) (position : Int) :
    RunKind.token .word fn.name.toList position =
      .ok ⟨.function, fn.name, position, none⟩ := by
  cases fn <;> rfl

theorem Fn.role?_name (fn : Fn) (position : Int) :
    (⟨.function, fn.name, position, none⟩ : Token).role? = some (.function fn) := by
  cases fn <;> rfl

/-- A stretch of text ends at a symbol. -/
theorem Tiling.before_symbol {position : Nat} {front rest : List Char} {char : Char}
    {kind : Kind} {firsts seconds : List Token} (hsymbol : classify char = .symbol kind)
    (hfront : Tiling position front firsts)
    (hrest : Tiling (position + front.length + 1) rest seconds) :
    Tiling position (front ++ char :: rest)
      (firsts ++ ⟨kind, String.ofList [char], (position + front.length : Nat), none⟩ ::
        seconds) :=
  hfront.append (.symbol hsymbol hrest)
    (not_insideRun_cons (ne_runMember_of_symbol hsymbol))

variable {lefts rights : List Char} {leftSort rightSort sort : List Token → Prop}

theorem CutsInto.imp (hchars : CutsInto lefts leftSort)
    (hsorts : ∀ tokens, leftSort tokens → sort tokens) : CutsInto lefts sort := by
  intro position
  obtain ⟨tokens, htiling, hsort⟩ := hchars position
  exact ⟨tokens, htiling, hsorts tokens hsort⟩

theorem CutsInto.parenthesized (hchars : CutsInto lefts leftSort)
    (hgroup : ∀ {opening closing : Token} {tokens : List Token},
      opening.role? = some .opening → closing.role? = some .closing → leftSort tokens →
        sort (opening :: (tokens ++ [closing]))) :
    CutsInto ('(' :: (lefts ++ [')'])) sort := by
  intro position
  obtain ⟨tokens, htiling, hsort⟩ := hchars (position + 1)
  have hclosed := Tiling.before_symbol classify_closing htiling (.nil _)
  exact ⟨_, .symbol classify_opening hclosed, hgroup rfl rfl hsort⟩

/-- The operator between two stretches may have gaps around it. -/
theorem CutsInto.operation (op : Op) {gap : List Char}
    (hgap : ∀ char ∈ gap, isSeparator char = true) (hleft : CutsInto lefts leftSort)
    (hright : CutsInto rights rightSort)
    (hjoin : ∀ {operator : Token} {firsts seconds : List Token},
      operator.role? = some (.operator op) → leftSort firsts → rightSort seconds →
        sort (firsts ++ operator :: seconds)) :
    CutsInto (lefts ++ (gap ++ op.symbol :: (gap ++ rights))) sort := by
  intro position
  obtain ⟨firsts, hfirsts, hleftSort⟩ := hleft position
  obtain ⟨seconds, hseconds, hrightSort⟩ :=
    hright (position + lefts.length + gap.length + 1 + gap.length)
  have houtside : ¬InsideRun lefts (op.symbol :: (gap ++ rights)) :=
    not_insideRun_cons (ne_runMember_of_symbol (classify_symbol op))
  exact ⟨_,
    hfirsts.append (.gap hgap (.symbol (classify_symbol op) (.gap hgap hseconds)))
    (not_insideRun_gap houtside hgap), hjoin (op.role?_symbol _) hleftSort hrightSort⟩

/-- The arguments of a call are parted by a comma and a blank. -/
theorem CutsInto.call (fn : Fn) (hleft : CutsInto lefts leftSort)
    (hright : CutsInto rights rightSort)
    (hcall : ∀ {function opening closing : Token} {firsts seconds : List Token},
      function.role? = some (.function fn) → opening.role? = some .opening →
        closing.role? = some .closing → leftSort firsts → rightSort seconds →
          sort (function :: opening :: (firsts ++ (seconds ++ [closing])))) :
    CutsInto
      (fn.name.toList ++ '(' :: (lefts ++ ',' :: ' ' :: (rights ++ [')']))) sort := by
  intro position
  have hcomma : classify ',' = .separator := rfl
  have hblank : classify ' ' = .separator := rfl
  have hname : fn.name.toList ≠ [] := by cases fn <;> decide
  obtain ⟨firsts, hfirsts, hleftSort⟩ := hleft (position + fn.name.toList.length + 1)
  obtain ⟨seconds, hseconds, hrightSort⟩ :=
    hright (position + fn.name.toList.length + 1 + lefts.length + 1 + 1)
  have hlast := Tiling.before_symbol classify_closing hseconds (.nil _)
  have harguments := hfirsts.append (.separator hcomma (.separator hblank hlast))
    (not_insideRun_cons (ne_runMember_of_separator hcomma))
  have hends : Ends .word ('(' :: (lefts ++ ',' :: ' ' :: (rights ++ [')']))) :=
    (interrupts_cons (ne_runMember_of_symbol classify_opening) _).ends .word
  exact ⟨_, .run hname (classify_fn fn) hends (wordToken_fn fn position)
    (.symbol classify_opening harguments),
    hcall (fn.role?_name _) rfl rfl hleftSort hrightSort⟩

/-! ## Texts that are read -/

/-- A text that is read is read as its expression wherever it stands. -/
theorem cutsInto_of_readText {text : String} {tree : Expr}
    (hread : readText .building text = .ok tree) :
    CutsInto text.toList fun tokens => ReadsLeniently tokens tree := by
  intro position
  obtain ⟨tokens, htokens, hreads⟩ := readsLeniently_of_readText hread
  have hshifted := (scan_eq_ok_iff.mp htokens).shift position
  rw [Nat.zero_add] at hshifted
  refine ⟨_, hshifted, readsLeniently_of_readTokens_ok hshifted.isWellFormed ?_⟩
  rw [readTokens_moved, Reading.moved, readTokens_ok_of_readsLeniently hreads]
  rfl

theorem readText_of_tiling {text : String} {tokens : List Token} {tree : Expr}
    (htiling : Tiling 0 text.toList tokens) (hreads : ReadsLeniently tokens tree) :
    readText .building text = .ok tree := by
  have htokens : tokenize text = .ok tokens := scan_eq_ok_iff.mpr htiling
  simp only [readText, htokens, readTokens_ok_of_readsLeniently hreads]

theorem CutsInto.readText {text : String} {chars : List Char} {tree : Expr}
    (hchars : CutsInto chars fun tokens => ReadsLeniently tokens tree)
    (htext : text.toList = chars) : readText .building text = .ok tree := by
  obtain ⟨tokens, htiling, hreads⟩ := hchars 0
  exact readText_of_tiling (htext ▸ htiling) hreads

theorem toList_parenthesized (text : String) :
    ("(" ++ text ++ ")").toList = '(' :: (text.toList ++ [')']) := by
  simp only [String.toList_append]
  rfl

/-- A text that is read is read the same in parentheses, and two such texts are
read as the operation or the call of what each of them is read as, whatever
both texts contain. -/
theorem readText_composes {first second : String} {left right : Expr}
    (hfirst : readText .building first = .ok left)
    (hsecond : readText .building second = .ok right) :
    readText .building ("(" ++ first ++ ")") = .ok left ∧
      (∀ op : Op,
        readText .building ("(" ++ first ++ ")" ++ op.text ++ "(" ++ second ++ ")") =
          .ok (.apply (.operator op) left right)) ∧
      ∀ fn : Fn,
        readText .building (fn.name ++ "(" ++ first ++ ", " ++ second ++ ")") =
          .ok (.apply (.function fn) left right) := by
  have hleft := cutsInto_of_readText hfirst
  have hright := cutsInto_of_readText hsecond
  -- In parentheses an expression is an operand, which any operator may
  -- have on either side.
  have hgroup {chars : List Char} {expr : Expr}
      (hchars : CutsInto chars fun tokens => ReadsLeniently tokens expr) :
      CutsInto ('(' :: (chars ++ [')'])) (Derives true (.complete operandLevel expr)) :=
    hchars.parenthesized fun hopening hclosing => .group hopening hclosing
  refine ⟨?_, fun op => ?_, fun fn => ?_⟩
  · refine CutsInto.readText ((hgroup hleft).imp fun tokens hderives => ?_)
      (toList_parenthesized first)
    exact hderives.weaken (by decide)
  · have htext : ("(" ++ first ++ ")" ++ op.text ++ "(" ++ second ++ ")").toList =
        '(' :: (first.toList ++ [')']) ++ ([] ++ op.symbol :: ([] ++
          '(' :: (second.toList ++ [')']))) := by
      simp only [String.toList_append, Op.text, String.toList_ofList, List.append_assoc,
        List.cons_append, List.nil_append]
      rfl
    refine CutsInto.readText ?_ htext
    refine CutsInto.operation op (by simp) (hgroup hleft) (hgroup hright) ?_
    intro operator firsts seconds hoperator hderivesLeft hderivesRight
    exact (Derives.operation hoperator
      (hderivesLeft.weaken op.leftLevel_le_operandLevel)
      (hderivesRight.weaken op.rightLevel_le_operandLevel)).weaken op.exprLevel_le_level
  · refine CutsInto.readText (CutsInto.call fn hleft hright ?_)
      (toList_call fn first second)
    intro function opening closing firsts seconds hfunction hopening hclosing hreadsLeft
      hreadsRight
    exact (Derives.call hfunction hopening hclosing hreadsLeft hreadsRight).weaken
      (by decide)

theorem broken_off_argument_composes :
    let first := "max(1, 2, 3^)"
    let second := "4-5"
    let power : Expr := .apply (.operator .pow) (.number (some 2)) (.number (some 3))
    let left : Expr := .apply (.function .max) (.number (some 1)) power
    let right : Expr := .apply (.operator .sub) (.number (some 4)) (.number (some 5))
    readText .building first = .ok left ∧ readText .building second = .ok right ∧
      readText .building ("(" ++ first ++ ")") = .ok left ∧
      readText .building ("(" ++ first ++ ")" ++ Op.sub.text ++ "(" ++ second ++ ")") =
        .ok (.apply (.operator .sub) left right) ∧
      readText .building (Fn.min.name ++ "(" ++ first ++ ", " ++ second ++ ")") =
        .ok (.apply (.function .min) left right) := by
  intro first second power left right
  have hfirst : readText .building first = .ok left := by decide +kernel
  have hsecond : readText .building second = .ok right := by decide +kernel
  obtain ⟨hgroup, hoperation, hcall⟩ := readText_composes hfirst hsecond
  exact ⟨hfirst, hsecond, hgroup, hoperation .sub, hcall .min⟩

end InfixCalc
