import InfixCalc.CommandLine.Run
import InfixCalc.Proofs.FaultPlaces
import InfixCalc.Proofs.Rereading

/-!
# Texts that show themselves

Whatever a run writes is put together from words of its own, numbers, quoted texts
and the words of an expression.  Quoting escapes what is invisible, and the other
parts are made of visible characters from the start.  So no text that is written
can break its line.
-/

namespace InfixCalc

open InfixCalc.Rounding

/-- No character of the text is invisible. -/
def AllPrintable (chars : List Char) : Prop :=
  ∀ char ∈ chars, isPrintable char = true

def IsPrintableText (text : String) : Prop :=
  AllPrintable text.toList

/-- A visible character of ASCII. -/
def isPlain (char : Char) : Bool :=
  32 ≤ char.toNat && char.toNat < 127

theorem isPrintable_of_isPlain {char : Char} (hplain : isPlain char = true) :
    isPrintable char = true := by
  rw [isPlain, Bool.and_eq_true, decide_eq_true_eq, decide_eq_true_eq] at hplain
  rw [isPrintable, if_pos hplain.2, decide_eq_true_eq]
  exact hplain.1

theorem allPrintable_of_plain {chars : List Char} (hplain : chars.all isPlain = true) :
    AllPrintable chars :=
  fun char hmem => isPrintable_of_isPlain (List.all_eq_true.mp hplain char hmem)

theorem isPrintableText_of_plain {text : String}
    (hplain : text.toList.all isPlain = true) : IsPrintableText text :=
  allPrintable_of_plain hplain

/-! ## Joining -/

@[simp]
theorem allPrintable_nil : AllPrintable [] :=
  nofun

@[simp]
theorem allPrintable_cons {char : Char} {chars : List Char} :
    AllPrintable (char :: chars) ↔ isPrintable char = true ∧ AllPrintable chars :=
  List.forall_mem_cons

@[simp]
theorem allPrintable_append {front behind : List Char} :
    AllPrintable (front ++ behind) ↔ AllPrintable front ∧ AllPrintable behind :=
  List.forall_mem_append

theorem AllPrintable.subset {chars others : List Char} (hprintable : AllPrintable chars)
    (hsubset : others ⊆ chars) : AllPrintable others :=
  fun char hmem => hprintable char (hsubset hmem)

theorem allPrintable_flatMap {chars : List Char} {shown : Char → List Char}
    (hshown : ∀ char, AllPrintable (shown char)) :
    AllPrintable (chars.flatMap shown) := by
  intro char hmem
  obtain ⟨source, -, hchar⟩ := List.mem_flatMap.mp hmem
  exact hshown source char hchar

theorem isPrintableText_ofList {chars : List Char} :
    IsPrintableText (String.ofList chars) ↔ AllPrintable chars := by
  rw [IsPrintableText, String.toList_ofList]

@[simp]
theorem isPrintableText_append {front behind : String} :
    IsPrintableText (front ++ behind) ↔ IsPrintableText front ∧
      IsPrintableText behind := by
  rw [IsPrintableText, String.toList_append, allPrintable_append, IsPrintableText,
    IsPrintableText]

theorem isPrintableText_intercalate {separator : String}
    (hseparator : IsPrintableText separator) {parts : List String}
    (hparts : ∀ part ∈ parts, IsPrintableText part) :
    IsPrintableText (separator.intercalate parts) := by
  rw [IsPrintableText, String.toList_intercalate]
  induction parts with
  | nil => exact allPrintable_nil
  | cons part parts ih =>
      obtain ⟨hpart, hothers⟩ := List.forall_mem_cons.mp hparts
      cases parts with
      | nil =>
          rw [List.map_singleton, List.intercalate_singleton]
          exact hpart
      | cons next parts =>
          have hrest := ih hothers
          simp only [List.map_cons, List.intercalate_cons_cons,
            allPrintable_append] at hrest ⊢
          exact ⟨⟨hpart, hseparator⟩, hrest⟩

/-! ## Digits -/

theorem isPrintable_of_holds {kind : RunKind} {char : Char}
    (hholds : kind.holds char = true) : isPrintable char = true := by
  obtain ⟨hleast, hgreatest⟩ := RunKind.holds_bounds hholds
  refine isPrintable_of_isPlain ?_
  rw [isPlain, Bool.and_eq_true, decide_eq_true_eq, decide_eq_true_eq]
  omega

theorem isPrintable_of_isDigit {char : Char} (hdigit : char.isDigit = true) :
    isPrintable char = true := by
  have hholds : RunKind.numeral.holds char = true := by
    rw [RunKind.holds, isNumeralChar, hdigit, Bool.or_true]
  exact isPrintable_of_holds hholds

theorem allPrintable_digits (number : Nat) : AllPrintable (Nat.toDigits 10 number) :=
  fun _ hmem => isPrintable_of_isDigit (isDigit_of_mem_toDigits hmem)

theorem allPrintable_zeros (zeros : Nat) : AllPrintable (List.replicate zeros '0') :=
  fun _ hmem => isPrintable_of_isDigit (isDigit_of_mem_zeros hmem)

theorem isPrintable_digitChar {digit : Nat} (hdigit : digit < 16) :
    isPrintable digit.digitChar = true := by
  interval_cases digit <;> exact isPrintable_of_isPlain (by decide)

theorem allPrintable_hexadecimal (number : Nat) :
    AllPrintable (Nat.toDigits 16 number) := by
  induction number using Nat.strongRecOn with
  | ind number ih =>
      rw [Nat.toDigits_eq_if (by decide)]
      split
      · rename_i hsmall
        simpa using isPrintable_digitChar hsmall
      · rename_i hlarge
        have hrest := ih (number / 16) (by omega)
        simpa using ⟨hrest, isPrintable_digitChar (Nat.mod_lt number (by decide))⟩

theorem allPrintable_hexDigits (width number : Nat) :
    AllPrintable (hexDigits width number) := by
  simpa [hexDigits] using ⟨allPrintable_zeros _, allPrintable_hexadecimal number⟩

@[simp]
theorem isPrintableText_nat (number : Nat) : IsPrintableText number.repr := by
  rw [Nat.repr_eq_ofList_toDigits, isPrintableText_ofList]
  exact allPrintable_digits number

@[simp]
theorem isPrintableText_int (number : Int) : IsPrintableText number.repr := by
  cases number with
  | ofNat natural => exact isPrintableText_nat natural
  | negSucc natural =>
      exact isPrintableText_append.mpr
        ⟨isPrintableText_of_plain (by decide), isPrintableText_nat natural.succ⟩

/-! ## Quoted texts -/

theorem allPrintable_escape {letter : Char} (hletter : isPrintable letter = true)
    {chars : List Char} (hchars : AllPrintable chars) :
    AllPrintable ('\\' :: letter :: chars) :=
  allPrintable_cons.mpr ⟨isPrintable_of_isPlain rfl,
    allPrintable_cons.mpr ⟨hletter, hchars⟩⟩

theorem allPrintable_quotedChar {quote : Char} (hquote : isPrintable quote = true)
    (char : Char) : AllPrintable (quotedChar quote char) := by
  unfold quotedChar
  repeat' split
  · rename_i hescaped
    rcases hescaped with rfl | rfl
    · exact allPrintable_escape hquote allPrintable_nil
    · exact allPrintable_escape (isPrintable_of_isPlain rfl) allPrintable_nil
  · exact allPrintable_of_plain rfl
  · exact allPrintable_of_plain rfl
  · exact allPrintable_of_plain rfl
  · rename_i hprintable
    exact allPrintable_cons.mpr ⟨hprintable, allPrintable_nil⟩
  · exact allPrintable_escape (isPrintable_of_isPlain rfl) (allPrintable_hexDigits _ _)
  · exact allPrintable_escape (isPrintable_of_isPlain rfl) (allPrintable_hexDigits _ _)
  · exact allPrintable_escape (isPrintable_of_isPlain rfl) (allPrintable_hexDigits _ _)

/-- Quoting leaves nothing invisible, whatever the text holds. -/
@[simp]
theorem isPrintableText_quoted (text : String) : IsPrintableText (quoted text) := by
  have hquote : isPrintable (quoteFor text.toList) = true := by
    unfold quoteFor
    split <;> exact isPrintable_of_isPlain rfl
  rw [quoted, isPrintableText_ofList, quotedChars]
  simpa using ⟨hquote, allPrintable_flatMap (allPrintable_quotedChar hquote), hquote⟩

/-! ## Values -/

theorem withoutTrailingZeros_subset (digits : List Char) :
    withoutTrailingZeros digits ⊆ digits := by
  intro char hmem
  have hdropped := (List.dropWhile_sublist _).subset (List.mem_reverse.mp hmem)
  exact List.mem_reverse.mp hdropped

theorem allPrintable_columns (decimal : Decimal) :
    AllPrintable decimal.columns.whole ∧ AllPrintable decimal.columns.fraction := by
  obtain ⟨coefficient, exponent⟩ := decimal
  have hdigits := allPrintable_digits coefficient
  cases exponent with
  | ofNat zeros =>
      simpa [Decimal.columns] using ⟨hdigits, allPrintable_zeros zeros⟩
  | negSucc n =>
      have hpadded (padding : Nat) :
          AllPrintable (List.replicate padding '0' ++ Nat.toDigits 10 coefficient) :=
        allPrintable_append.mpr ⟨allPrintable_zeros padding, hdigits⟩
      refine ⟨(hpadded _).subset (List.take_subset _ _), ?_⟩
      exact ((hpadded _).subset (List.drop_subset _ _)).subset
        (withoutTrailingZeros_subset _)

theorem allPrintable_fractionText {fraction : List Char}
    (hfraction : AllPrintable fraction) : AllPrintable (fractionText fraction) := by
  unfold fractionText
  split
  · exact allPrintable_nil
  · exact allPrintable_cons.mpr ⟨isPrintable_of_isPlain rfl, hfraction⟩

theorem allPrintable_powerText (exponent : Int) :
    AllPrintable (powerText exponent) := by
  have hsign : isPrintable (if exponent < 0 then '-' else '+') = true := by
    split <;> exact isPrintable_of_isPlain rfl
  have hletter : isPrintable 'e' = true := isPrintable_of_isPlain rfl
  simpa [powerText] using
    ⟨hletter, hsign, allPrintable_zeros _, allPrintable_digits exponent.natAbs⟩

theorem allPrintable_magnitudeText (layout : Layout) (decimal : Decimal) :
    AllPrintable (layout.magnitudeText decimal) := by
  obtain ⟨hwhole, hfraction⟩ := allPrintable_columns decimal
  have hdigits := allPrintable_digits decimal.coefficient
  simp only [Layout.magnitudeText]
  split
  · split
    · exact allPrintable_append.mpr ⟨hwhole, allPrintable_of_plain rfl⟩
    · exact allPrintable_append.mpr ⟨hwhole, allPrintable_fractionText hfraction⟩
  · have hfirst := hdigits.subset (List.take_subset 1 _)
    have hrest :=
      (hdigits.subset (List.drop_subset 1 _)).subset (withoutTrailingZeros_subset _)
    exact allPrintable_append.mpr ⟨allPrintable_append.mpr
      ⟨hfirst, allPrintable_fractionText hrest⟩, allPrintable_powerText _⟩

@[simp]
theorem isPrintableText_double (layout : Layout) (value : Float) :
    IsPrintableText (layout.text value) := by
  have hdigits : AllPrintable
      (if magnitudeOf value = infiniteMagnitude then ['i', 'n', 'f']
        else layout.magnitudeText (shortestDecimal (magnitudeOf value))) := by
    split
    · exact allPrintable_of_plain rfl
    · exact allPrintable_magnitudeText layout _
  simp only [Layout.text]
  split
  · exact isPrintableText_of_plain (by decide)
  · rw [isPrintableText_ofList]
    split
    · exact allPrintable_cons.mpr ⟨isPrintable_of_isPlain rfl, hdigits⟩
    · exact hdigits

@[simp]
theorem isPrintableText_value (value : Value) : IsPrintableText (valueText value) := by
  cases value with
  | none => exact isPrintableText_of_plain (by decide)
  | some value => exact isPrintableText_double .result value

/-! ## Listings -/

theorem isPrintableText_record {name : String} {fields : List (String × String)}
    (hname : IsPrintableText name)
    (hfields : ∀ field ∈ fields, IsPrintableText field.1 ∧ IsPrintableText field.2) :
    IsPrintableText (recordText name fields) := by
  have hparts : ∀ part ∈ fields.map fun field => field.1 ++ "=" ++ field.2,
      IsPrintableText part := by
    intro part hmem
    obtain ⟨field, hfield, rfl⟩ := List.mem_map.mp hmem
    simp (disch := decide) [isPrintableText_of_plain, hfields field hfield]
  have hcomma : IsPrintableText ", " := isPrintableText_of_plain (by decide)
  simp (disch := decide) [recordText, isPrintableText_of_plain, hname,
    isPrintableText_intercalate hcomma hparts]

@[simp]
theorem isPrintableText_flag (flag : Bool) : IsPrintableText (flagText flag) := by
  cases flag <;> exact isPrintableText_of_plain (by decide)

@[simp]
theorem isPrintableText_leaf (leaf : Leaf) : IsPrintableText leaf.listing := by
  cases leaf with
  | absent => exact isPrintableText_of_plain (by decide)
  | _ =>
      refine isPrintableText_record (isPrintableText_of_plain (by decide)) ?_
      simp (disch := decide) [isPrintableText_of_plain]

@[simp]
theorem isPrintableText_head (head : Head) : IsPrintableText head.listing := by
  cases head <;> simp (disch := decide) [Head.listing, isPrintableText_of_plain]

@[simp]
theorem isPrintableText_expr (expr : Expr) : IsPrintableText expr.listing := by
  induction expr with
  | leaf found => exact isPrintableText_leaf found
  | apply head left right ihleft ihright =>
      simp (disch := decide) [Expr.listing, isPrintableText_of_plain, ihleft, ihright]

/-- A token is listed on one line, whatever its text. -/
theorem isPrintableText_token (token : Token) : IsPrintableText token.listing := by
  have hkind : IsPrintableText token.kind.name := by
    cases token.kind with
    | operator op => cases op <;> exact isPrintableText_of_plain (by decide)
    | _ => exact isPrintableText_of_plain (by decide)
  cases hvalue : token.value with
  | none =>
      simp (disch := decide) [Token.listing, isPrintableText_of_plain, hkind, hvalue]
  | some value =>
      simp (disch := decide) [Token.listing, isPrintableText_of_plain, hkind, hvalue]

/-! ## Entries of the journal -/

/-- A run starts by its command, which is a word of its own. -/
theorem isPrintableText_started (command : Command) (expression : String)
    (settings : Settings) :
    IsPrintableText (Entry.started command.name expression settings).line := by
  have hsettings : IsPrintableText settings.listing := by
    rw [Settings.listing]
    refine isPrintableText_record (isPrintableText_of_plain (by decide)) ?_
    simp (disch := decide) [isPrintableText_of_plain]
  have hname : IsPrintableText command.name := by
    cases command <;> exact isPrintableText_of_plain (by decide)
  change IsPrintableText
    ("yard_cli: " ++ command.name ++ " " ++ quoted expression ++ " with " ++
      settings.listing)
  simp (disch := decide) [isPrintableText_of_plain, hname, hsettings]

theorem isPrintableText_scanned (count : Nat) (text : String) :
    IsPrintableText (Entry.scanned count text).line := by
  change IsPrintableText ("yard_lexer: scanned " ++ toString count ++ " tokens from "
    ++ quoted text)
  simp (disch := decide) [isPrintableText_of_plain]

theorem isPrintableText_folded (folding : Folding) :
    IsPrintableText (Entry.folded folding).line := by
  change IsPrintableText ("yard_parser: fold " ++ folding.listing)
  simp (disch := decide) [Folding.listing, isPrintableText_of_plain]

/-! ## Expressions -/

theorem isPrintableText_between (op : Op) {left right : String}
    (hleft : IsPrintableText left) (hright : IsPrintableText right) :
    IsPrintableText (op.between left right) := by
  cases op <;> simp (disch := decide)
    [Op.between, isPrintableText_of_plain, hleft, hright]

theorem isPrintableText_enclosedIf (needed : Bool) {text : String}
    (htext : IsPrintableText text) : IsPrintableText (enclosedIf needed text) := by
  cases needed
  · exact htext
  · simp (disch := decide) [enclosedIf, isPrintableText_of_plain, htext]

theorem isPrintableText_fn (fn : Fn) : IsPrintableText fn.name := by
  cases fn <;> exact isPrintableText_of_plain (by decide)

theorem isPrintableText_joined (head : Head) (left right : Expr)
    {leftText rightText : String} (hleft : IsPrintableText leftText)
    (hright : IsPrintableText rightText) :
    IsPrintableText (joinedText head left right leftText rightText) := by
  cases head with
  | operator op =>
      exact isPrintableText_between op (isPrintableText_enclosedIf _ hleft)
        (isPrintableText_enclosedIf _ hright)
  | function fn =>
      simp (disch := decide) [joinedText, isPrintableText_of_plain,
        isPrintableText_fn, hleft, hright]

/-- The text of a tree of literals shows itself if its numbers do. -/
theorem isPrintableText_textWith {print : Float → String}
    (hprint : ∀ value, IsPrintableText (print value)) {expr : Expr}
    (hliteral : ∀ leaf ∈ expr.leaves, leaf.IsLiteral) :
    ∃ text, expr.textWith print = .ok text ∧ IsPrintableText text := by
  induction expr with
  | leaf found =>
      rw [Expr.textWith_leaf]
      have hfound := hliteral found (List.mem_singleton_self found)
      match found, hfound with
      | .number (some value), _ => exact ⟨_, rfl, hprint value⟩
      | .constant _ _, ⟨rfl, rfl⟩ =>
          exact ⟨_, rfl, isPrintableText_of_plain (by decide)⟩
  | apply head left right ihleft ihright =>
      obtain ⟨hlefts, hrights⟩ := List.forall_mem_append.mp hliteral
      obtain ⟨leftText, hleftText, hleft⟩ := ihleft hlefts
      obtain ⟨rightText, hrightText, hright⟩ := ihright hrights
      refine ⟨_, ?_, isPrintableText_joined head left right hleft hright⟩
      rw [Expr.textWith_apply, hleftText, hrightText]
      rfl

/-! ## Reports -/

/-- The words that the cause repeats without quoting them show themselves. -/
def Cause.IsPrintable : Cause → Prop
  | .unknownIdentifier name => IsPrintableText name
  | .notCalled name found => IsPrintableText name ∧ ∀ text ∈ found, IsPrintableText text
  | .adjacentOperands found => IsPrintableText found
  | _ => True

theorem isPrintableText_labelled {label : String} (hlabel : IsPrintableText label)
    {text : Option String} (htext : ∀ found ∈ text, IsPrintableText found) :
    ∀ part ∈ labelled label text, IsPrintableText part := by
  cases text with
  | none => exact nofun
  | some found =>
      simp only [labelled]
      split
      · exact nofun
      · rw [List.forall_mem_singleton]
        exact isPrintableText_append.mpr ⟨hlabel, htext found rfl⟩

theorem isPrintableText_reportText {report : Report}
    (hmessage : IsPrintableText report.message)
    (hreceived : ∀ text ∈ report.received, IsPrintableText text)
    (hexpected : ∀ text ∈ report.expected, IsPrintableText text)
    (hsuggestion : ∀ text ∈ report.suggestion, IsPrintableText text) :
    IsPrintableText report.text := by
  have hposition : ∀ text ∈ report.position.map toString, IsPrintableText text := by
    intro text hmem
    obtain ⟨position, -, rfl⟩ := Option.mem_map.mp hmem
    exact isPrintableText_int position
  have hcomma : IsPrintableText ", " := isPrintableText_of_plain (by decide)
  have hparts : ∀ part ∈
      report.message :: labelled "at position " (report.position.map toString) ++
        labelled "received " report.received ++ labelled "expected " report.expected,
      IsPrintableText part := by
    simp only [List.cons_append, List.forall_mem_cons, List.forall_mem_append]
    exact ⟨hmessage,
      ⟨isPrintableText_labelled (isPrintableText_of_plain (by decide)) hposition,
        isPrintableText_labelled (isPrintableText_of_plain (by decide)) hreceived⟩,
      isPrintableText_labelled (isPrintableText_of_plain (by decide)) hexpected⟩
  refine isPrintableText_append.mpr ⟨isPrintableText_intercalate hcomma hparts, ?_⟩
  cases hfound : report.suggestion with
  | none => exact isPrintableText_of_plain (by decide)
  | some found =>
      dsimp only
      split
      · exact isPrintableText_of_plain (by decide)
      · simp (disch := decide) [isPrintableText_of_plain, hsuggestion found hfound]

theorem isPrintableText_message {cause : Cause} (hcause : cause.IsPrintable) :
    IsPrintableText cause.message := by
  cases cause with
  | unexpectedCharacter char =>
      change IsPrintableText ("unexpected character " ++ quoted _)
      simp (disch := decide) [isPrintableText_of_plain]
  | malformedNumber numeral =>
      change IsPrintableText ("malformed number " ++ quoted numeral)
      simp (disch := decide) [isPrintableText_of_plain]
  | unknownIdentifier name =>
      exact isPrintableText_append.mpr ⟨isPrintableText_of_plain (by decide), hcause⟩
  | notCalled name found =>
      exact isPrintableText_append.mpr ⟨hcause.1, isPrintableText_of_plain (by decide)⟩
  | adjacentOperands found =>
      change IsPrintableText "missing operator"
      exact isPrintableText_of_plain (by decide)
  | missingLeftOperand operator =>
      change IsPrintableText
        ("operator " ++ quoted operator ++ " is missing its left operand")
      simp (disch := decide) [isPrintableText_of_plain]
  | missingOperand operator =>
      change IsPrintableText
        ("operator " ++ quoted operator ++ " is missing an operand")
      simp (disch := decide) [isPrintableText_of_plain]
  | wrongArgumentCount fn count =>
      change IsPrintableText (fn.name ++ " takes " ++ toString fn.arity ++ " arguments")
      simp (disch := decide) [isPrintableText_of_plain, isPrintableText_fn]
  | unopenedParenthesis | unclosedParenthesis | emptyParentheses | emptyExpression
  | severalValuesInParentheses | severalValues | markerWithoutValue =>
      exact isPrintableText_of_plain (by decide)

theorem isPrintableText_received {cause : Cause} (hcause : cause.IsPrintable) :
    ∀ text ∈ cause.received, IsPrintableText text := by
  intro text htext
  cases cause with
  | notCalled name found => exact hcause.2 text htext
  | adjacentOperands found =>
      cases htext
      exact hcause
  | unopenedParenthesis =>
      cases htext
      exact isPrintableText_of_plain (by decide)
  | wrongArgumentCount fn count =>
      cases htext
      exact isPrintableText_nat count
  | _ => cases htext

theorem isPrintableText_expected (cause : Cause) :
    ∀ text ∈ cause.expected, IsPrintableText text := by
  intro text htext
  cases cause with
  | malformedNumber | unknownIdentifier | unclosedParenthesis =>
      cases htext
      exact isPrintableText_of_plain (by decide)
  | _ => cases htext

theorem isPrintableText_suggestion (cause : Cause) :
    ∀ text ∈ cause.suggestion, IsPrintableText text := by
  intro text htext
  cases cause with
  | adjacentOperands found =>
      cases htext
      exact isPrintableText_of_plain (by decide)
  | _ => cases htext

theorem isPrintableText_report {fault : Fault} (hcause : fault.cause.IsPrintable) :
    IsPrintableText fault.report.text :=
  isPrintableText_reportText (isPrintableText_message hcause)
    (isPrintableText_received hcause) (isPrintableText_expected _)
    (isPrintableText_suggestion _)

/-! ## Faults of a text -/

theorem allPrintable_of_members {kind : RunKind} {run : List Char}
    (hmembers : ∀ char ∈ run, classify char = .runMember kind) : AllPrintable run :=
  fun char hmem =>
    isPrintable_of_holds (classify_eq_runMember_iff.mp (hmembers char hmem))

/-- Only what stands in the text is scanned, and it is made of visible characters. -/
theorem Tiling.isPrintableText {position : Nat} {chars : List Char}
    {tokens : List Token} (htiling : Tiling position chars tokens) :
    ∀ token ∈ tokens, IsPrintableText token.text := by
  induction htiling with
  | nil => simp
  | separator _ _ ih => exact ih
  | symbol hsymbol _ ih =>
      refine List.forall_mem_cons.mpr ⟨isPrintableText_ofList.mpr ?_, ih⟩
      have hmem := mem_of_symbolKind (classify_eq_symbol_iff.mp hsymbol)
      have hsymbols : AllPrintable symbolChars := allPrintable_of_plain rfl
      exact allPrintable_cons.mpr ⟨hsymbols _ hmem, allPrintable_nil⟩
  | run _ hmembers _ htoken _ ih =>
      refine List.forall_mem_cons.mpr ⟨?_, ih⟩
      rw [(RunKind.token_eq_ok htoken).1, isPrintableText_ofList]
      exact allPrintable_of_members hmembers

theorem Stops.isPrintable {position : Nat} {chars : List Char} {fault : Fault}
    (hstops : Stops position chars fault) : fault.cause.IsPrintable := by
  induction hstops with
  | illegal => trivial
  | interrupted => trivial
  | @badRun position kind run rest fault _ hmembers _ _ hbad =>
      cases kind with
      | numeral =>
          obtain ⟨-, rfl⟩ := numeralToken_eq_error hbad
          trivial
      | word =>
          obtain ⟨-, -, rfl⟩ := wordToken_eq_error hbad
          exact isPrintableText_ofList.mpr (allPrintable_of_members hmembers)
  | separator _ _ ih => exact ih
  | symbol _ _ ih => exact ih
  | run _ _ _ _ _ ih => exact ih

theorem Fault.Blames.isPrintable {tokens : List Token} {fault : Fault}
    (hblames : fault.Blames tokens)
    (htexts : ∀ token ∈ tokens, IsPrintableText token.text) :
    fault.cause.IsPrintable := by
  obtain ⟨cause, place⟩ := fault
  cases cause with
  | notCalled name found =>
      cases found with
      | none =>
          obtain ⟨function, hmem, ⟨-, rfl⟩, -⟩ := hblames
          exact ⟨htexts function hmem, nofun⟩
      | some found =>
          obtain ⟨⟨function, hfunction, -, rfl⟩, token, hmem, rfl, -⟩ := hblames
          refine ⟨htexts function hfunction, fun text htext => ?_⟩
          cases htext
          exact htexts token hmem
  | adjacentOperands found =>
      obtain ⟨latter, hmem, ⟨rfl, -⟩, -⟩ := hblames
      exact htexts latter hmem
  | unknownIdentifier => exact hblames.elim
  | _ => trivial

end InfixCalc
