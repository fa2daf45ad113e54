import InfixCalc.Proofs.NumeralText
import InfixCalc.Proofs.Recognition
import InfixCalc.Proofs.Scanning
import InfixCalc.Proofs.Walk

/-!
# Reading what was written

A leaf is written as one run.  An operand is put in parentheses exactly where its
operator does not reach the level the place asks for, so the text of an expression is
scanned into tokens from which the grammar derives the expression again.
-/

namespace InfixCalc

open InfixCalc.Rounding

/-! ## Expressions the syntax can express -/

/-- Numerals have no sign and no name for what is not finite. -/
def Leaf.IsExpressible : Leaf → Prop
  | .number (some value) =>
    magnitudeOf value < infiniteMagnitude ∧ isSigned value = false
  | .constant name value => name = "pi" ∧ value = some 3.14159265359
  | _ => False

def Expr.IsExpressible : Expr → Prop
  | .leaf found => found.IsExpressible
  | .apply _ left right => left.IsExpressible ∧ right.IsExpressible

/-- The level of the operator at the root, if there is one. -/
def Expr.level (expr : Expr) : Nat :=
  (expr.operator?.map Op.level).getD operandLevel

theorem Expr.exprLevel_le_level (expr : Expr) : exprLevel ≤ expr.level := by
  cases hoperator : expr.operator? with
  | none =>
      rw [Expr.level, hoperator]
      decide
  | some op =>
      rw [Expr.level, hoperator]
      exact op.exprLevel_le_level

/-- A left operand without parentheses reaches the level of left operands. -/
theorem Op.leftLevel_le_level {op : Op} {left : Expr}
    (hkeeps : op.breaksLeft left = false) : op.leftLevel ≤ left.level := by
  rw [Op.breaksLeft] at hkeeps
  rw [Expr.level]
  cases hoperator : left.operator? with
  | none => exact op.leftLevel_le_operandLevel
  | some inner =>
      rw [hoperator, Option.any_some, Bool.not_eq_false'] at hkeeps
      exact (Op.leftFirst_iff inner op).mp hkeeps

theorem Op.rightLevel_le_level {op : Op} {right : Expr}
    (hkeeps : op.breaksRight right = false) : op.rightLevel ≤ right.level := by
  rw [Op.breaksRight] at hkeeps
  rw [Expr.level]
  cases hoperator : right.operator? with
  | none => exact op.rightLevel_le_operandLevel
  | some inner =>
      rw [hoperator, Option.any_some] at hkeeps
      exact (Op.leftFirst_eq_false_iff op inner).mp hkeeps

/-! ## Texts -/

/-- Wherever it stands, the text is scanned into tokens from which the grammar derives
the expression. -/
def Writes (chars : List Char) (level : Nat) (expr : Expr) : Prop :=
  ∀ position, ∃ tokens, ScansTo chars position tokens ∧
    Derives false (.complete level expr) tokens

theorem Writes.weaken {chars : List Char} {level above : Nat} {expr : Expr}
    (hlevel : level ≤ above) (hwrites : Writes chars above expr) :
    Writes chars level expr := by
  intro position
  obtain ⟨tokens, hscans, hderives⟩ := hwrites position
  exact ⟨tokens, hscans, hderives.weaken hlevel⟩

theorem Writes.enclosed {chars : List Char} {expr : Expr}
    (hwrites : Writes chars exprLevel expr) :
    Writes ('(' :: (chars ++ [')'])) operandLevel expr := by
  intro position
  obtain ⟨tokens, hscans, hderives⟩ := hwrites (position + 1)
  have hopening : classify '(' = .symbol .openParen := rfl
  have hclosing : classify ')' = .symbol .closeParen := rfl
  have hend := ScansTo.symbol hclosing (scansTo_nil (position + 1 + chars.length + 1))
  have hwhole := (hscans.append (ne_runMember_of_symbol hclosing) hend).symbol hopening
  exact ⟨_, hwhole, .group rfl rfl hderives⟩

theorem writes_enclosedIf {needed : Bool} {text : String} {level own : Nat}
    {expr : Expr} (hwrites : Writes text.toList own expr) (hown : exprLevel ≤ own)
    (hoperand : level ≤ operandLevel) (hkeeps : needed = false → level ≤ own) :
    Writes (enclosedIf needed text).toList level expr := by
  cases needed with
  | false => exact hwrites.weaken (hkeeps rfl)
  | true =>
      have htext : (enclosedIf true text).toList = '(' :: (text.toList ++ [')']) := by
        simp only [enclosedIf, if_true, String.toList_append]
        rfl
      rw [htext]
      exact (hwrites.weaken hown).enclosed.weaken hoperand

theorem toList_between_pow (left right : String) :
    (Op.between .pow left right).toList = left.toList ++ '^' :: right.toList := by
  rw [Op.between, String.toList_append, String.toList_append, List.append_assoc]
  rfl

theorem toList_between {op : Op} (hother : op ≠ .pow) (left right : String) :
    (op.between left right).toList =
      left.toList ++ ' ' :: op.symbol :: ' ' :: right.toList := by
  cases op with
  | pow => exact absurd rfl hother
  | _ =>
      simp only [Op.between, Op.text, String.toList_append, String.toList_ofList,
        List.append_assoc]
      rfl

theorem Op.role?_symbol (op : Op) (position : Int) :
    (⟨.operator op, String.ofList [op.symbol], position, none⟩ : Token).role? =
      some (.operator op) := by
  cases op <;> rfl

/-- Between its operands stands the operator, with a blank on both sides or without. -/
theorem writes_operation {op : Op} {leftText rightText : String} {left right : Expr}
    (hleft : Writes leftText.toList op.leftLevel left)
    (hright : Writes rightText.toList op.rightLevel right) :
    Writes (op.between leftText rightText).toList op.level
      (.apply (.operator op) left right) := by
  intro position
  obtain ⟨lefts, hscansLeft, hderivesLeft⟩ := hleft position
  have hsymbol := classify_symbol op
  by_cases hpower : op = .pow
  · subst hpower
    obtain ⟨rights, hscansRight, hderivesRight⟩ :=
      hright (position + leftText.toList.length + 1)
    have hscans :=
      hscansLeft.append (ne_runMember_of_symbol hsymbol) (hscansRight.symbol hsymbol)
    rw [toList_between_pow]
    exact ⟨_, hscans, .operation (Op.role?_symbol .pow _) hderivesLeft hderivesRight⟩
  · have hblank : classify ' ' = .separator := rfl
    obtain ⟨rights, hscansRight, hderivesRight⟩ :=
      hright (position + leftText.toList.length + 1 + 1 + 1)
    have hbehind := ((hscansRight.separator hblank).symbol hsymbol).separator hblank
    have hscans := hscansLeft.append (ne_runMember_of_separator hblank) hbehind
    rw [toList_between hpower]
    exact ⟨_, hscans, .operation (Op.role?_symbol op _) hderivesLeft hderivesRight⟩

theorem scansTo_word {word : List Char} (hnonempty : word ≠ [])
    (hletters : (word.all fun char => classify char = .runMember .word) = true)
    {position : Nat} {token : Token} (htoken : wordToken word position = .ok token) :
    ScansTo word position [token] :=
  scansTo_run hnonempty (classify_of_all hletters) htoken

theorem scansTo_fn (fn : Fn) (position : Nat) :
    ScansTo fn.name.toList position [⟨.function, fn.name, position, none⟩] := by
  cases fn with
  | min => exact scansTo_word (by decide) (by decide) rfl
  | max => exact scansTo_word (by decide) (by decide) rfl

theorem toList_call (fn : Fn) (left right : String) :
    (fn.name ++ "(" ++ left ++ ", " ++ right ++ ")").toList =
      fn.name.toList ++ '(' ::
        (left.toList ++ ',' :: ' ' :: (right.toList ++ [')'])) := by
  simp only [String.toList_append, List.append_assoc]
  rfl

/-- The arguments of a call stand in its parentheses, parted by a comma and a blank. -/
theorem writes_call (fn : Fn) {leftText rightText : String} {left right : Expr}
    (hleft : Writes leftText.toList exprLevel left)
    (hright : Writes rightText.toList exprLevel right) :
    Writes (fn.name ++ "(" ++ leftText ++ ", " ++ rightText ++ ")").toList operandLevel
      (.apply (.function fn) left right) := by
  intro position
  have hopening : classify '(' = .symbol .openParen := rfl
  have hclosing : classify ')' = .symbol .closeParen := rfl
  have hcomma : classify ',' = .separator := rfl
  have hblank : classify ' ' = .separator := rfl
  obtain ⟨firsts, hscansLeft, hderivesLeft⟩ :=
    hleft (position + fn.name.toList.length + 1)
  obtain ⟨seconds, hscansRight, hderivesRight⟩ :=
    hright (position + fn.name.toList.length + 1 + leftText.toList.length + 1 + 1)
  have hend :=
    ScansTo.symbol hclosing
      (scansTo_nil (position + fn.name.toList.length + 1 + leftText.toList.length + 1
        + 1 + rightText.toList.length + 1))
  have hlast := hscansRight.append (ne_runMember_of_symbol hclosing) hend
  have harguments := hscansLeft.append (ne_runMember_of_separator hcomma)
    ((hlast.separator hblank).separator hcomma)
  have hscans := (scansTo_fn fn position).append (ne_runMember_of_symbol hopening)
    (harguments.symbol hopening)
  have hrole : (⟨.function, fn.name, position, none⟩ : Token).role? =
      some (.function fn) := by
    cases fn <;> rfl
  rw [toList_call]
  exact ⟨_, hscans, .call hrole rfl rfl hderivesLeft hderivesRight⟩

section
variable {print : Float → String} (hprint : IsPositional print) {value : Float}
  (hfinite : magnitudeOf value < infiniteMagnitude) (hclear : isSigned value = false)
include hprint hfinite hclear

theorem classify_print {char : Char} (hmem : char ∈ (print value).toList) :
    classify char = .runMember .numeral := by
  rcases hprint.isNumeralChar hfinite hclear hmem with rfl | hdigit
  · rfl
  · exact classify_digit hdigit

theorem token_print (position : Int) :
    RunKind.token .numeral (print value).toList position =
      .ok ⟨.number, print value, position, some value⟩ := by
  simp only [RunKind.token, numeralToken, hprint.numeralValue? hfinite hclear,
    String.ofList_toList]

theorem scansTo_print (position : Nat) :
    ScansTo (print value).toList position
      [⟨.number, print value, position, some value⟩] :=
  scansTo_run (hprint.toList_ne_nil hfinite hclear)
    (fun _ hmem => classify_print hprint hfinite hclear hmem)
    (token_print hprint hfinite hclear position)

theorem writes_number :
    Writes (print value).toList operandLevel (.number (some value)) :=
  fun position => ⟨_, scansTo_print hprint hfinite hclear position, .operand rfl⟩

end

theorem writes_pi :
    Writes "pi".toList operandLevel (.constant "pi" (some 3.14159265359)) := by
  intro position
  have htoken : wordToken "pi".toList position =
      .ok ⟨.constant, "pi", position, some 3.14159265359⟩ := rfl
  exact ⟨_, scansTo_word (by decide) (by decide) htoken, .operand rfl⟩

/-! ## The round trip -/

variable {print : Float → String}

theorem writes_leaf (hprint : IsPositional print) {leaf : Leaf}
    (hexpressible : leaf.IsExpressible) :
    ∃ text, leaf.textWith print = .ok text ∧
      Writes text.toList operandLevel (.leaf leaf) := by
  cases leaf with
  | number value =>
      cases value with
      | none => exact hexpressible.elim
      | some known => exact ⟨_, rfl, writes_number hprint hexpressible.1 hexpressible.2⟩
  | constant name value =>
      obtain ⟨rfl, rfl⟩ := hexpressible
      exact ⟨_, rfl, writes_pi⟩
  | marker position depth call => exact hexpressible.elim
  | absent => exact hexpressible.elim

theorem writes_apply (head : Head) {leftText rightText : String} {left right : Expr}
    (hleft : Writes leftText.toList left.level left)
    (hright : Writes rightText.toList right.level right) :
    Writes (joinedText head left right leftText rightText).toList
      (Expr.apply head left right).level (.apply head left right) := by
  cases head with
  | operator op =>
      exact writes_operation
        (writes_enclosedIf hleft left.exprLevel_le_level op.leftLevel_le_operandLevel
          Op.leftLevel_le_level)
        (writes_enclosedIf hright right.exprLevel_le_level op.rightLevel_le_operandLevel
          Op.rightLevel_le_level)
  | function fn =>
      exact writes_call fn (hleft.weaken left.exprLevel_le_level)
        (hright.weaken right.exprLevel_le_level)

theorem exists_text (hprint : IsPositional print) {expr : Expr}
    (hexpressible : expr.IsExpressible) :
    ∃ text, expr.textWith print = .ok text ∧ Writes text.toList expr.level expr := by
  induction expr with
  | leaf found =>
      rw [Expr.textWith_leaf]
      exact writes_leaf hprint hexpressible
  | apply head left right ihleft ihright =>
      obtain ⟨leftText, hleftText, hleft⟩ := ihleft hexpressible.1
      obtain ⟨rightText, hrightText, hright⟩ := ihright hexpressible.2
      refine ⟨_, ?_, writes_apply head hleft hright⟩
      rw [Expr.textWith_apply, hleftText, hrightText]
      rfl

theorem readText_of_writes {text : String} {level : Nat} {expr : Expr}
    (hlevel : exprLevel ≤ level) (hwrites : Writes text.toList level expr) :
    readText .building text = .ok expr := by
  obtain ⟨tokens, hscans, hderives⟩ := hwrites 0
  have htokens : tokenize text = .ok tokens := scan_of_scansTo hscans
  have hreads : ReadsLeniently tokens expr := (hderives.weaken hlevel).lenient_of_strict
  simp only [readText, htokens, readTokens_ok_of_readsLeniently hreads]

/-- An expression the syntax can express has a text, whichever positional printer prints
its numbers, and reading the text builds that very expression. -/
theorem readText_text_of_isExpressible (hprint : IsPositional print) {expr : Expr}
    (hexpressible : expr.IsExpressible) :
    ∃ text, expr.textWith print = .ok text ∧ readText .building text = .ok expr := by
  obtain ⟨text, htext, hwrites⟩ := exists_text hprint hexpressible
  exact ⟨text, htext, readText_of_writes expr.exprLevel_le_level hwrites⟩

theorem nested_powers_round_trip :
    let half : Expr := .number (some 0.5)
    let pi : Expr := .constant "pi" (some 3.14159265359)
    let power : Expr := .apply (.operator .pow) (.apply (.operator .pow) half pi) half
    let expr : Expr := .apply (.operator .sub) power
      (.apply (.operator .sub) (.apply (.function .max) pi half) half)
    expr.IsExpressible ∧ ∃ text, expr.text = .ok text ∧
      readText .building text = .ok expr := by
  intro half pi power expr
  have hhalf : half.IsExpressible := by
    change magnitudeOf _ < infiniteMagnitude ∧ isSigned _ = false
    decide
  have hpi : pi.IsExpressible := ⟨rfl, rfl⟩
  have hexpr : expr.IsExpressible := ⟨⟨⟨hhalf, hpi⟩, hhalf⟩, ⟨hpi, hhalf⟩, hhalf⟩
  exact ⟨hexpr, readText_text_of_isExpressible isPositional_literalText hexpr⟩

end InfixCalc
