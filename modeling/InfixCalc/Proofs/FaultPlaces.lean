import InfixCalc.Proofs.Gaps
import InfixCalc.Proofs.ReadFaults
import InfixCalc.Proofs.Safety
import InfixCalc.Proofs.ScanFaults
import InfixCalc.Proofs.TokenPlaces

/-!
# Where a fault points

The position of a fault is a place in the text, and what stands there fits the kind of
the fault.  A fault of scanning lies at a character or at the first character of a whole
run, and a fault of reading lies at a token, which stands in the text at its position.
A text of separators alone has no token to blame, so its fault has no position.
-/

namespace InfixCalc

/-- A whole run begins at this place. -/
def RunBegins (kind : RunKind) (run chars : List Char) (index : Nat) : Prop :=
  ∃ before behind, chars = before ++ (run ++ behind) ∧ before.length = index ∧
    IsMaximal kind before run behind

/-- What stands at this place of the text is what a fault of the kind is about. -/
def ErrorKind.FitsPlace (kind : ErrorKind) (chars : List Char) (index : Nat) : Prop :=
  match kind with
  | .lexical => ∃ char, chars[index]? = some char ∧ classify char = .illegal
  | .malformedNumber =>
    ∃ run, numeralValue? run = none ∧ RunBegins .numeral run chars index
  | .unknownIdentifier =>
    ∃ run, Fn.ofName? (String.ofList run) = none ∧
      constantValue? (String.ofList run) = none ∧ RunBegins .word run chars index
  | .imbalancedParenthesis => chars[index]? = some '(' ∨ chars[index]? = some ')'
  | .missingOperand =>
    chars[index]? = some '(' ∨ ∃ op : Op, chars[index]? = some op.symbol
  | .missingOperator =>
    ∃ before former latter behind,
      scan chars = .ok (before ++ former :: latter :: behind) ∧
        former.kind ∈ [.number, .constant, .closeParen] ∧
        latter.kind ∈ [.number, .constant, .function, .openParen] ∧
        latter.position = (index : Int)
  | .argumentCount =>
    ∃ tokens, scan chars = .ok tokens ∧ ∃ token ∈ tokens, ∃ fn : Fn,
      token.kind = .function ∧ token.text = fn.name ∧ token.position = index ∧
        RunBegins .word fn.name.toList chars index
  | .parsing =>
    ∃ tokens, scan chars = .ok tokens ∧ ∃ token ∈ tokens, token.position = index
  | .general | .evaluation => False

/-- The fault has a place in the text, and what stands there fits its kind. -/
def Fault.PointsInto (fault : Fault) (chars : List Char) : Prop :=
  ∃ index : Nat, fault.position = some (index : Int) ∧ index < chars.length ∧
    fault.cause.kind.FitsPlace chars index

/-! ## Faults of scanning -/

theorem pointsInto_illegal {front rest : List Char} {char : Char}
    (hillegal : classify char = .illegal) :
    (Fault.located front.length (.unexpectedCharacter char)).PointsInto
      (front ++ char :: rest) := by
  have hchar : (front ++ char :: rest)[front.length]? = some char := by
    rw [List.getElem?_append_right le_rfl, Nat.sub_self, List.getElem?_cons_zero]
  exact ⟨front.length, rfl, (List.getElem?_eq_some_iff.mp hchar).1, char,
    hchar, hillegal⟩

theorem pointsInto_badRun {kind : RunKind} {front run rest : List Char} {fault : Fault}
    (hmaximal : IsMaximal kind front run rest)
    (hbad : kind.token run front.length = .error fault) :
    fault.PointsInto (front ++ (run ++ rest)) := by
  have hbegins : RunBegins kind run (front ++ (run ++ rest)) front.length :=
    ⟨front, rest, rfl, rfl, hmaximal⟩
  have hlength := List.length_pos_of_ne_nil hmaximal.nonempty
  have hinside : front.length < (front ++ (run ++ rest)).length := by
    rw [List.length_append, List.length_append]
    omega
  cases kind with
  | numeral =>
      obtain ⟨hvalue, rfl⟩ := numeralToken_eq_error hbad
      exact ⟨front.length, rfl, hinside, run, hvalue, hbegins⟩
  | word =>
      obtain ⟨hfn, hconstant, rfl⟩ := wordToken_eq_error hbad
      exact ⟨front.length, rfl, hinside, run, hfn, hconstant, hbegins⟩

/-- The scanner stops at what its fault is about, whatever is in front of the stretch,
as long as no run begins there. -/
theorem Stops.pointsInto {position : Nat} {chars : List Char} {fault : Fault}
    (hstops : Stops position chars fault) {front : List Char}
    (hfront : front.length = position) (houtside : ¬InsideRun front chars) :
    fault.PointsInto (front ++ chars) := by
  induction hstops generalizing front with
  | illegal hillegal =>
      subst hfront
      exact pointsInto_illegal hillegal
  | @interrupted position kind run rest char unseen hnonempty hmembers hbad hillegal =>
      subst hfront
      rw [← List.append_assoc, ← List.length_append]
      exact pointsInto_illegal hillegal
  | badRun hnonempty hmembers hends hlegal hbad =>
      subst hfront
      exact pointsInto_badRun (isMaximal_of_run hnonempty hmembers hends houtside) hbad
  | separator hseparator _ ih =>
      rw [List.append_cons]
      have hother := ne_runMember_of_separator hseparator
      exact ih (by simp [hfront]) (not_insideRun_of_class hother)
  | symbol hsymbol _ ih =>
      rw [List.append_cons]
      have hother := ne_runMember_of_symbol hsymbol
      exact ih (by simp [hfront]) (not_insideRun_of_class hother)
  | run hnonempty hmembers hends _ _ ih =>
      rw [← List.append_assoc]
      exact ih (by simp [hfront]) (not_insideRun_of_ends hnonempty hmembers hends)

theorem pointsInto_of_scan {chars : List Char} {fault : Fault}
    (hscan : scan chars = .error fault) : fault.PointsInto chars :=
  (stops_of_scan hscan).pointsInto rfl (not_insideRun_nil chars)

/-! ## Faults of reading -/

/-- The token of a symbol stands at the symbol. -/
theorem Token.StandsIn.symbol {token : Token} {chars : List Char}
    (hstands : token.StandsIn chars)
    (hsymbol : token.kind.isOperator = true ∨ token.kind = .openParen ∨
      token.kind = .closeParen) {index : Nat} (hposition : token.position = index) :
    ∃ char, chars[index]? = some char ∧ symbolKind? char = some token.kind := by
  obtain ⟨before, behind, hchars, hplace, hfits⟩ := hstands
  have hlexeme : ∃ char, token.text.toList = [char] ∧
      symbolKind? char = some token.kind := by
    obtain ⟨kind, text, position, value⟩ := token
    cases kind with
    | number => simp [Kind.isOperator] at hsymbol
    | constant => simp [Kind.isOperator] at hsymbol
    | function => simp [Kind.isOperator] at hsymbol
    | operator op => exact hfits.1
    | openParen => exact hfits.1
    | closeParen => exact hfits.1
  obtain ⟨char, hlexeme, hkind⟩ := hlexeme
  obtain rfl : index = before.length := by omega
  refine ⟨char, ?_, hkind⟩
  rw [hchars, hlexeme, List.getElem?_append_right le_rfl, Nat.sub_self]
  rfl

theorem Token.StandsIn.parenthesis {token : Token} {chars : List Char}
    (hstands : token.StandsIn chars) {index : Nat}
    (hposition : token.position = index) :
    (token.kind = .openParen → chars[index]? = some '(') ∧
      (token.kind = .closeParen → chars[index]? = some ')') := by
  constructor
  · intro hkind
    obtain ⟨char, hchar, hsymbol⟩ := hstands.symbol (.inr (.inl hkind)) hposition
    rw [hkind] at hsymbol
    rcases symbolKind?_eq_some hsymbol with ⟨rfl, -⟩ | ⟨-, hother⟩ | ⟨op, -, hother⟩
    · exact hchar
    · cases hother
    · cases hother
  · intro hkind
    obtain ⟨char, hchar, hsymbol⟩ := hstands.symbol (.inr (.inr hkind)) hposition
    rw [hkind] at hsymbol
    rcases symbolKind?_eq_some hsymbol with ⟨-, hother⟩ | ⟨rfl, -⟩ | ⟨op, -, hother⟩
    · cases hother
    · exact hchar
    · cases hother

theorem Token.StandsIn.operator {token : Token} {chars : List Char}
    (hstands : token.StandsIn chars) (hoperator : token.kind.isOperator = true)
    {index : Nat} (hposition : token.position = index) :
    ∃ op : Op, chars[index]? = some op.symbol := by
  obtain ⟨char, hchar, hsymbol⟩ := hstands.symbol (.inl hoperator) hposition
  rcases symbolKind?_eq_some hsymbol with ⟨-, hother⟩ | ⟨-, hother⟩ | ⟨op, rfl, -⟩
  · rw [hother] at hoperator
    cases hoperator
  · rw [hother] at hoperator
    cases hoperator
  · exact ⟨op, hchar⟩

/-- A function is named by the whole run it stands at. -/
theorem Token.StandsIn.function {token : Token} {chars : List Char}
    (hstands : token.StandsIn chars) {fn : Fn}
    (means : token.role? = some (.function fn)) {index : Nat}
    (hposition : token.position = index) :
    token.kind = .function ∧ token.text = fn.name ∧
      RunBegins .word fn.name.toList chars index := by
  obtain ⟨hkind, hfn⟩ := Token.kind_of_role means
  have hname := List.find?_some hfn
  have htext : token.text = fn.name := (of_decide_eq_true hname).symm
  obtain ⟨before, behind, hchars, hplace, hfits⟩ := hstands
  have hmaximal : IsMaximal .word before token.text.toList behind := by
    simp only [Token.Fits, hkind] at hfits
    exact hfits.1
  rw [htext] at hchars hmaximal
  exact ⟨hkind, htext, before, behind, hchars, by omega, hmaximal⟩

theorem Kind.mem_of_endsOperand {kind : Kind} (hends : kind.endsOperand = true) :
    kind ∈ [Kind.number, .constant, .closeParen] := by
  cases kind <;> simp [Kind.endsOperand] at hends ⊢

theorem Kind.mem_of_startsOperand {kind : Kind} (hstarts : kind.startsOperand = true) :
    kind ∈ [Kind.number, .constant, .function, .openParen] := by
  cases kind <;> simp [Kind.startsOperand] at hstarts ⊢

variable {chars : List Char} {tokens : List Token}

/-- What lies at a token points to where the token stands. -/
theorem Fault.LiesAt.pointsInto {fault : Fault} {sort : Token → Prop}
    (htokens : scan chars = .ok tokens) (hlies : fault.LiesAt tokens sort)
    (hfits : ∀ token ∈ tokens, sort token → token.StandsIn chars → ∀ index : Nat,
      token.position = index → fault.cause.kind.FitsPlace chars index) :
    fault.PointsInto chars := by
  obtain ⟨token, hmem, hsort, hposition⟩ := hlies
  have htiling := scan_eq_ok_iff.mp htokens
  have hstands := htiling.standsIn rfl (not_insideRun_nil chars) token hmem
  have hinside := htiling.position_lt token hmem
  obtain ⟨before, behind, -, hplace, -⟩ := id hstands
  rw [hplace, Nat.zero_add, Int.ofNat_lt] at hinside
  exact ⟨before.length, hposition.trans (congrArg some hplace), hinside,
    hfits token hmem hsort hstands before.length hplace⟩

/-- A fault that is about a token points to the place of that token. -/
theorem Fault.Blames.pointsInto {fault : Fault} (htokens : scan chars = .ok tokens)
    (hblames : fault.Blames tokens) : fault.PointsInto chars := by
  obtain ⟨cause, place⟩ := fault
  cases cause with
  | notCalled name found =>
      cases found with
      | none =>
          refine Fault.LiesAt.pointsInto htokens hblames
            fun token hmem _ _ index hposition => ?_
          exact ⟨tokens, htokens, token, hmem, hposition⟩
      | some text =>
          refine Fault.LiesAt.pointsInto htokens hblames.2
            fun token hmem _ _ index hposition => ?_
          exact ⟨tokens, htokens, token, hmem, hposition⟩
  | adjacentOperands found =>
      refine Fault.LiesAt.pointsInto htokens hblames
        fun latter _ hsort _ index hposition => ?_
      obtain ⟨-, hstarts, before, former, behind, rfl, hends⟩ := hsort
      exact ⟨before, former, latter, behind, htokens, Kind.mem_of_endsOperand hends,
        Kind.mem_of_startsOperand hstarts, hposition⟩
  | missingLeftOperand operator | missingOperand operator =>
      refine Fault.LiesAt.pointsInto htokens hblames
        fun token _ hsort hstands index hposition => ?_
      exact .inr (hstands.operator hsort.1 hposition)
  | unopenedParenthesis =>
      refine Fault.LiesAt.pointsInto htokens hblames
        fun token _ hkind hstands index hposition => ?_
      exact .inr ((hstands.parenthesis hposition).2 hkind)
  | unclosedParenthesis | emptyParentheses =>
      refine Fault.LiesAt.pointsInto htokens hblames
        fun token _ hkind hstands index hposition => ?_
      exact .inl ((hstands.parenthesis hposition).1 hkind)
  | wrongArgumentCount fn count =>
      refine Fault.LiesAt.pointsInto htokens hblames
        fun token hmem means hstands index hposition => ?_
      obtain ⟨hkind, htext, hbegins⟩ := hstands.function means hposition
      exact ⟨tokens, htokens, token, hmem, fn, hkind, htext, hposition, hbegins⟩
  | unexpectedCharacter | malformedNumber | unknownIdentifier | emptyExpression
  | severalValuesInParentheses | severalValues | markerWithoutValue =>
      exact hblames.elim

/-! ## Texts without tokens -/

/-- A text has no tokens just in case that it is all commas and white space. -/
theorem scan_eq_nil_iff :
    scan chars = .ok [] ↔ ∀ char ∈ chars, isSeparator char = true := by
  constructor
  · intro hscan char hmem
    obtain ⟨index, hindex⟩ := List.mem_iff_getElem?.mp hmem
    have hcovers := (scan_eq_ok_iff.mp hscan).coversVisible index char hindex
    simpa using hcovers
  · intro hseparators
    have hgap := Tiling.gap hseparators (.nil (0 + chars.length))
    rw [List.append_nil] at hgap
    exact scan_eq_ok_iff.mpr hgap

/-- Neither a plain group nor the whole expression is left with several values. -/
theorem Fault.Blames.cause_ne {fault : Fault} (hblames : fault.Blames tokens) :
    fault.cause ≠ .severalValuesInParentheses ∧ fault.cause ≠ .severalValues := by
  constructor
  · intro hcause
    simp only [Fault.Blames, hcause] at hblames
  · intro hcause
    simp only [Fault.Blames, hcause] at hblames

theorem Fault.IsOfScanning.cause_ne {fault : Fault} (hscanning : fault.IsOfScanning) :
    fault.cause ≠ .severalValuesInParentheses ∧ fault.cause ≠ .severalValues := by
  constructor
  · intro hcause
    rw [Fault.IsOfScanning, hcause] at hscanning
    exact absurd hscanning (by decide)
  · intro hcause
    rw [Fault.IsOfScanning, hcause] at hscanning
    exact absurd hscanning (by decide)

/-! ## Faults of a text -/

/-- A text is refused by the scanner or for one of its tokens, unless it has none. -/
theorem fault_of_readText {mode : Mode} {text : String} {failure : Failure}
    (hfails : readText mode text = .error failure) :
    ∃ fault, failure = .fault fault ∧
      (scan text.toList = .error fault ∨
        (∃ tokens, scan text.toList = .ok tokens ∧ tokens ≠ [] ∧ fault.Blames tokens) ∨
        scan text.toList = .ok [] ∧ fault = ⟨.emptyExpression, none⟩) := by
  unfold readText at hfails
  cases htokens : tokenize text with
  | error fault =>
      rw [htokens] at hfails
      cases hfails
      exact ⟨fault, rfl, .inl htokens⟩
  | ok tokens =>
      rw [htokens] at hfails
      have hformed := (scan_eq_ok_iff.mp htokens).isWellFormed
      rcases readTokens_safe mode hformed with ⟨expr, hresult, -⟩ | ⟨fault, hresult, -⟩
      · cases hresult.symm.trans hfails
      · obtain rfl : Failure.fault fault = failure :=
          Except.error.inj (hresult.symm.trans hfails)
        refine ⟨fault, rfl, .inr ?_⟩
        by_cases hnone : tokens = []
        · subst hnone
          cases hresult
          exact .inr ⟨htokens, rfl⟩
        · have hblames :=
            (blames_of_readTokens mode hformed hresult).resolve_right fun hempty =>
              hnone hempty.1
          exact .inl ⟨tokens, htokens, hnone, hblames⟩

/-- What points into a text is said of a text with something else than
separators in it. -/
theorem position_iff_of_pointsInto {fault : Fault} (hpoints : fault.PointsInto chars)
    (hsome : scan chars ≠ .ok []) :
    fault.position ≠ none ∧
      (fault.position = none ↔ ∀ char ∈ chars, isSeparator char = true) := by
  obtain ⟨index, hposition, -⟩ := hpoints
  have hplaced : fault.position ≠ none := by
    rw [hposition]
    exact Option.some_ne_none _
  exact ⟨hplaced, iff_of_false hplaced fun hall => hsome (scan_eq_nil_iff.mpr hall)⟩

/-- A text that is not read has a fault.  It lacks a position only if the text is all
commas and white space, and is then said of the expression as a whole.  Otherwise it
points to a place in the text, and what stands there fits the kind of the fault.  It is
never that several values are left, inside parentheses or at the end. -/
theorem readText_fault_fits_place {mode : Mode} {text : String} {failure : Failure}
    (hfails : readText mode text = .error failure) :
    ∃ fault, failure = .fault fault ∧
      (fault.position = none ↔ ∀ char ∈ text.toList, isSeparator char = true) ∧
      (fault.position = none → fault.cause.kind = .parsing) ∧
      (fault.position ≠ none → fault.PointsInto text.toList) ∧
      fault.cause ≠ .severalValuesInParentheses ∧ fault.cause ≠ .severalValues := by
  obtain ⟨fault, hfault, hscan | ⟨tokens, hscan, hsome, hblames⟩ | ⟨hscan, rfl⟩⟩ :=
    fault_of_readText hfails
  · have hpoints := pointsInto_of_scan hscan
    have hsome : scan text.toList ≠ .ok [] :=
      fun hnone => nomatch hscan.symm.trans hnone
    obtain ⟨hplaced, hposition⟩ := position_iff_of_pointsInto hpoints hsome
    have hcause := (isOfScanning_of_scan hscan).cause_ne
    exact ⟨fault, hfault, hposition, fun hlacks => absurd hlacks hplaced,
      fun _ => hpoints, hcause⟩
  · have hpoints := hblames.pointsInto hscan
    have hsome : scan text.toList ≠ .ok [] :=
      fun hnone => hsome (Except.ok.inj (hscan.symm.trans hnone))
    obtain ⟨hplaced, hposition⟩ := position_iff_of_pointsInto hpoints hsome
    exact ⟨fault, hfault, hposition, fun hlacks => absurd hlacks hplaced,
      fun _ => hpoints, hblames.cause_ne⟩
  · refine ⟨_, hfault, ?_, fun _ => rfl, fun hplaced => absurd rfl hplaced,
      nofun, nofun⟩
    exact iff_of_true rfl (scan_eq_nil_iff.mp hscan)

theorem second_operand_in_group_is_blamed :
    ∃ fault, readText .building "max(2*(3 4), 5" = .error (.fault fault) ∧
      fault.position = some 9 ∧ fault.cause.kind = .missingOperator ∧
      fault.PointsInto "max(2*(3 4), 5".toList := by
  have hfails : readText .building "max(2*(3 4), 5" =
      .error (.fault ⟨.adjacentOperands "4", some 9⟩) := by decide +kernel
  obtain ⟨fault, hfault, -, -, hpoints, -⟩ := readText_fault_fits_place hfails
  cases hfault
  exact ⟨_, hfails, rfl, rfl, hpoints nofun⟩

end InfixCalc
