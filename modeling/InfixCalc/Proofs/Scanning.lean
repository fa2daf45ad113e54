import Mathlib
import InfixCalc.Token.Scan

/-!
# Scanning piece by piece

A piece of text is scanned into the same tokens wherever it stands, unless what follows
it continues a run.  So the tokens of a text are those of its pieces, put together at
symbols and separators.
-/

namespace InfixCalc

/-! ## Characters -/

theorem symbolKind?_eq_some {char : Char} {kind : Kind}
    (hsymbol : symbolKind? char = some kind) :
    (char = '(' ∧ kind = .openParen) ∨ (char = ')' ∧ kind = .closeParen) ∨
      ∃ op : Op, char = op.symbol ∧ kind = .operator op := by
  unfold symbolKind? at hsymbol
  split at hsymbol
  · cases hsymbol
    exact .inl ⟨by assumption, rfl⟩
  · split at hsymbol
    · cases hsymbol
      exact .inr (.inl ⟨by assumption, rfl⟩)
    · obtain ⟨op, hop, rfl⟩ := Option.map_eq_some_iff.mp hsymbol
      have hchar := List.find?_some hop
      exact .inr (.inr ⟨op, (of_decide_eq_true hchar).symm, rfl⟩)

/-- The characters that are tokens of their own. -/
def symbolChars : List Char := ['(', ')', '+', '-', '*', '/', '^']

theorem mem_of_symbolKind {char : Char} {kind : Kind}
    (hsymbol : symbolKind? char = some kind) : char ∈ symbolChars := by
  rcases symbolKind?_eq_some hsymbol with ⟨rfl, -⟩ | ⟨rfl, -⟩ | ⟨op, rfl, -⟩
  · decide
  · decide
  · cases op <;> decide

/-- The characters of a run. -/
def RunKind.holds : RunKind → Char → Bool
  | .numeral, char => isNumeralChar char
  | .word, char => char.isAlpha

/-- Points, digits and letters lie between the comma and the controls. -/
theorem RunKind.holds_bounds {kind : RunKind} {char : Char}
    (hholds : kind.holds char = true) : 0x2e ≤ char.toNat ∧ char.toNat ≤ 0x7a := by
  cases kind with
  | numeral =>
      simp only [RunKind.holds, isNumeralChar, Char.isDigit, Bool.or_eq_true,
        Bool.and_eq_true, decide_eq_true_eq] at hholds
      rcases hholds with rfl | ⟨hleast, hgreatest⟩
      · decide
      · have hleast : 48 ≤ char.toNat := hleast
        have hgreatest : char.toNat ≤ 57 := hgreatest
        omega
  | word =>
      simp only [RunKind.holds, Char.isAlpha, Char.isUpper, Char.isLower,
        Bool.or_eq_true, Bool.and_eq_true, decide_eq_true_eq] at hholds
      rcases hholds with ⟨hleast, hgreatest⟩ | ⟨hleast, hgreatest⟩
      · have hleast : 65 ≤ char.toNat := hleast
        have hgreatest : char.toNat ≤ 90 := hgreatest
        omega
      · have hleast : 97 ≤ char.toNat := hleast
        have hgreatest : char.toNat ≤ 122 := hgreatest
        omega

theorem isSeparator_of_holds {kind : RunKind} {char : Char}
    (hholds : kind.holds char = true) : isSeparator char = false := by
  obtain ⟨hleast, hgreatest⟩ := RunKind.holds_bounds hholds
  have hcomma : char ≠ ',' := by
    rintro rfl
    exact absurd hleast (by decide)
  have hblank : isBlank char = false := by
    simp only [isBlank, Bool.or_eq_false_iff, Bool.and_eq_false_iff,
      decide_eq_false_iff_not, beq_eq_false_iff_ne]
    omega
  simp only [isSeparator, hblank, hcomma, decide_false, Bool.or_false]

theorem symbolKind?_of_holds {kind : RunKind} {char : Char}
    (hholds : kind.holds char = true) : symbolKind? char = none := by
  have hnone : (symbolChars.all fun symbol => !kind.holds symbol) = true := by
    cases kind <;> decide
  rw [Option.eq_none_iff_forall_ne_some]
  intro symbol hsymbol
  have hother := List.all_eq_true.mp hnone char (mem_of_symbolKind hsymbol)
  rw [hholds] at hother
  cases hother

theorem symbolKind?_of_separator {char : Char} (hseparator : isSeparator char = true) :
    symbolKind? char = none := by
  have hnone : (symbolChars.all fun symbol => !isSeparator symbol) = true := by
    decide
  rw [Option.eq_none_iff_forall_ne_some]
  intro symbol hsymbol
  have hother := List.all_eq_true.mp hnone char (mem_of_symbolKind hsymbol)
  rw [hseparator] at hother
  cases hother

theorem isNumeralChar_of_isAlpha {char : Char} (hletter : char.isAlpha = true) :
    isNumeralChar char = false := by
  have hpoint : char ≠ '.' := by
    rintro rfl
    exact absurd hletter (by decide)
  have hdigit : char.isDigit = false := by
    simp only [Char.isAlpha, Char.isUpper, Char.isLower, Bool.or_eq_true,
      Bool.and_eq_true, decide_eq_true_eq] at hletter
    simp only [Char.isDigit, Bool.and_eq_false_iff, decide_eq_false_iff_not]
    right
    intro hgreatest
    have hgreatest : char.toNat ≤ 57 := hgreatest
    rcases hletter with ⟨hleast, -⟩ | ⟨hleast, -⟩
    · have hleast : 65 ≤ char.toNat := hleast
      omega
    · have hleast : 97 ≤ char.toNat := hleast
      omega
  simp only [isNumeralChar, hpoint, hdigit, decide_false, Bool.or_false]

theorem classify_eq_symbol_iff {char : Char} {kind : Kind} :
    classify char = .symbol kind ↔ symbolKind? char = some kind := by
  grind [classify]

theorem classify_eq_separator_iff {char : Char} :
    classify char = .separator ↔ isSeparator char = true := by
  constructor
  · intro hclass
    grind [classify]
  · intro hseparator
    simp only [classify, symbolKind?_of_separator hseparator, hseparator, if_true]

theorem classify_eq_runMember_iff {char : Char} {kind : RunKind} :
    classify char = .runMember kind ↔ kind.holds char = true := by
  constructor
  · intro hclass
    grind [classify, RunKind.holds]
  · intro hholds
    have hsymbol := symbolKind?_of_holds hholds
    have hseparator := isSeparator_of_holds hholds
    cases kind with
    | numeral =>
        have hnumeral : isNumeralChar char = true := hholds
        simp only [classify, hsymbol, hseparator, hnumeral, Bool.false_eq_true,
          if_false, if_true]
    | word =>
        have hletter : char.isAlpha = true := hholds
        simp only [classify, hsymbol, hseparator, isNumeralChar_of_isAlpha hletter,
          hletter, Bool.false_eq_true, if_false, if_true]

/-- A run can be checked character by character. -/
theorem classify_of_all {chars : List Char} {kind : RunKind}
    (hall : (chars.all fun char => classify char = .runMember kind) = true) :
    ∀ char ∈ chars, classify char = .runMember kind :=
  fun char hmem => of_decide_eq_true (List.all_eq_true.mp hall char hmem)

theorem classify_digit {char : Char} (hdigit : char.isDigit = true) :
    classify char = .runMember .numeral := by
  refine classify_eq_runMember_iff.mpr ?_
  change isNumeralChar char = true
  rw [isNumeralChar, hdigit, Bool.or_true]

theorem classify_symbol (op : Op) : classify op.symbol = .symbol (.operator op) := by
  cases op <;> rfl

theorem ne_runMember_of_symbol {char : Char} {kind : Kind}
    (hsymbol : classify char = .symbol kind) (other : RunKind) :
    classify char ≠ .runMember other := by
  rw [hsymbol]
  exact CharClass.noConfusion

theorem ne_runMember_of_separator {char : Char}
    (hseparator : classify char = .separator) (other : RunKind) :
    classify char ≠ .runMember other := by
  rw [hseparator]
  exact CharClass.noConfusion

/-! ## Steps -/

/-- Scan the rest of a text and end the run at its end. -/
def scanOn (state : ScanState) (position : Nat) (chars : List Char) :
    Except Fault ScanState :=
  (scanFrom state position chars).bind ScanState.flush

theorem scan_eq_scanOn (chars : List Char) :
    scan chars =
      (scanOn .start 0 chars).map fun flushed => flushed.reversed.reverse := by
  unfold scan scanOn
  cases scanFrom .start 0 chars with
  | ok state => rfl
  | error fault => rfl

theorem scanOn_cons (state : ScanState) (position : Nat) (char : Char)
    (rest : List Char) :
    scanOn state position (char :: rest) =
      (state.read position char).bind fun next => scanOn next (position + 1) rest := by
  unfold scanOn
  rw [scanFrom]
  cases state.read position char with
  | ok next => rfl
  | error fault => rfl

theorem read_symbol {char : Char} {kind : Kind} (hsymbol : classify char = .symbol kind)
    (before : List Token) (position : Nat) :
    ScanState.read ⟨before, none⟩ position char =
      .ok ⟨⟨kind, String.ofList [char], position, none⟩ :: before, none⟩ := by
  simp only [ScanState.read, hsymbol]
  rfl

theorem read_separator {char : Char} (hseparator : classify char = .separator)
    (before : List Token) (position : Nat) :
    ScanState.read ⟨before, none⟩ position char = .ok ⟨before, none⟩ := by
  simp only [ScanState.read, hseparator]
  rfl

theorem read_first {char : Char} {kind : RunKind}
    (hmember : classify char = .runMember kind) (before : List Token) (position : Nat) :
    ScanState.read ⟨before, none⟩ position char =
      .ok ⟨before, some ⟨kind, position, [char]⟩⟩ := by
  simp only [ScanState.read, hmember]
  rfl

theorem read_further {char : Char} {run : OpenRun}
    (hmember : classify char = .runMember run.kind) (before : List Token)
    (position : Nat) :
    ScanState.read ⟨before, some run⟩ position char =
      .ok ⟨before, some { run with reversed := char :: run.reversed }⟩ := by
  simp only [ScanState.read, hmember, ScanState.gather, if_true]

/-- What ends a run reads the same once the run has become a token. -/
theorem read_interrupted {char : Char} {run : OpenRun}
    (hother : classify char ≠ .runMember run.kind) {token : Token}
    (htoken : run.token = .ok token) (before : List Token) (position : Nat) :
    ScanState.read ⟨before, some run⟩ position char =
      ScanState.read ⟨token :: before, none⟩ position char := by
  unfold ScanState.read
  split
  · simp only [ScanState.flush, htoken]
  · simp only [ScanState.flush, htoken]
  · rename_i kind hmember
    have hkind : run.kind ≠ kind := fun heq => hother (heq ▸ hmember)
    simp only [ScanState.gather, if_neg hkind, ScanState.flush, htoken]
    rfl
  · rfl

/-! ## Runs -/

/-- A run of this kind does not go on here. -/
def Ends (kind : RunKind) (rest : List Char) : Prop :=
  ∀ char ∈ rest.head?, classify char ≠ .runMember kind

/-- Nothing continues a run here. -/
def Interrupts (rest : List Char) : Prop :=
  ∀ char ∈ rest.head?, ∀ kind, classify char ≠ .runMember kind

theorem Interrupts.ends {rest : List Char} (hinterrupts : Interrupts rest)
    (kind : RunKind) : Ends kind rest :=
  fun char hmem => hinterrupts char hmem kind

theorem interrupts_nil : Interrupts [] := by
  intro char hmem
  cases hmem

theorem interrupts_cons {char : Char} (hother : ∀ kind, classify char ≠ .runMember kind)
    (rest : List Char) : Interrupts (char :: rest) := by
  intro first hmem
  cases hmem
  exact hother

theorem scanOn_interrupted {run : OpenRun} {token : Token}
    (htoken : run.token = .ok token) {rest : List Char} (hends : Ends run.kind rest)
    (before : List Token) (position : Nat) :
    scanOn ⟨before, some run⟩ position rest =
      scanOn ⟨token :: before, none⟩ position rest := by
  cases rest with
  | nil => simp only [scanOn, scanFrom, Except.bind, ScanState.flush, htoken]
  | cons char rest =>
      rw [scanOn_cons, scanOn_cons, read_interrupted (hends char rfl) htoken]

theorem scanOn_further {chars : List Char} (run : OpenRun)
    (hmembers : ∀ char ∈ chars, classify char = .runMember run.kind)
    (before : List Token) (position : Nat) (rest : List Char) :
    scanOn ⟨before, some run⟩ position (chars ++ rest) =
      scanOn ⟨before, some { run with reversed := chars.reverse ++ run.reversed }⟩
        (position + chars.length) rest := by
  induction chars generalizing run position with
  | nil => rfl
  | cons char chars ih =>
      have hfirst := hmembers char List.mem_cons_self
      have hothers : ∀ other ∈ chars, classify other = .runMember run.kind :=
        fun other hmem => hmembers other (List.mem_cons_of_mem _ hmem)
      rw [List.cons_append, scanOn_cons, read_further hfirst]
      refine (ih { run with reversed := char :: run.reversed } hothers
        (position + 1)).trans ?_
      rw [List.reverse_cons, List.append_assoc, List.singleton_append, List.length_cons,
        Nat.add_assoc, Nat.add_comm 1]

/-- A whole run is gathered before anything else is looked at. -/
theorem scanOn_gathered {kind : RunKind} {run : List Char} (hnonempty : run ≠ [])
    (hmembers : ∀ char ∈ run, classify char = .runMember kind) (before : List Token)
    (position : Nat) (rest : List Char) :
    scanOn ⟨before, none⟩ position (run ++ rest) =
      scanOn ⟨before, some ⟨kind, position, run.reverse⟩⟩ (position + run.length)
        rest := by
  obtain ⟨char, further, rfl⟩ := List.exists_cons_of_ne_nil hnonempty
  have hfurther : ∀ other ∈ further, classify other = .runMember kind :=
    fun other hmem => hmembers other (List.mem_cons_of_mem _ hmem)
  rw [List.cons_append, scanOn_cons, read_first (hmembers char List.mem_cons_self)]
  refine (scanOn_further ⟨kind, position, [char]⟩ hfurther before (position + 1)
    rest).trans ?_
  rw [List.reverse_cons, List.length_cons, Nat.add_assoc, Nat.add_comm 1]

/-- A whole run becomes one token. -/
theorem scanOn_run {kind : RunKind} {chars rest : List Char} (hnonempty : chars ≠ [])
    (hmembers : ∀ char ∈ chars, classify char = .runMember kind)
    (hends : Ends kind rest) {position : Nat} {token : Token}
    (htoken : kind.token chars position = .ok token) (before : List Token) :
    scanOn ⟨before, none⟩ position (chars ++ rest) =
      scanOn ⟨token :: before, none⟩ (position + chars.length) rest := by
  have hrun : OpenRun.token ⟨kind, position, chars.reverse⟩ = .ok token := by
    rw [← htoken, OpenRun.token, List.reverse_reverse]
  rw [scanOn_gathered hnonempty hmembers, scanOn_interrupted hrun hends]

/-! ## Faults -/

/-- The fault is one of characters or runs, not of how tokens are put together. -/
def Fault.IsOfScanning (fault : Fault) : Prop :=
  fault.cause.kind ∈ [.lexical, .malformedNumber, .unknownIdentifier]

theorem isOfScanning_of_token {kind : RunKind} {chars : List Char} {position : Int}
    {fault : Fault} (htoken : kind.token chars position = .error fault) :
    fault.IsOfScanning := by
  cases kind with
  | numeral =>
      simp only [RunKind.token, numeralToken] at htoken
      split at htoken <;> cases htoken
      exact .tail _ (.head _)
  | word =>
      simp only [RunKind.token, wordToken] at htoken
      split at htoken <;> cases htoken
      exact .tail _ (.tail _ (.head _))

theorem isOfScanning_of_flush {state : ScanState} {fault : Fault}
    (hflush : state.flush = .error fault) : fault.IsOfScanning := by
  unfold ScanState.flush at hflush
  split at hflush
  · cases hflush
  · split at hflush <;> cases hflush
    exact isOfScanning_of_token (by assumption)

theorem isOfScanning_of_map_flush {α : Type} {next : ScanState → α} {state : ScanState}
    {fault : Fault} (hflush : state.flush.map next = .error fault) :
    fault.IsOfScanning := by
  cases hflushed : state.flush with
  | ok flushed =>
      rw [hflushed] at hflush
      cases hflush
  | error found =>
      rw [hflushed] at hflush
      cases hflush
      exact isOfScanning_of_flush hflushed

theorem isOfScanning_of_read {state : ScanState} {position : Nat} {char : Char}
    {fault : Fault} (hread : state.read position char = .error fault) :
    fault.IsOfScanning := by
  unfold ScanState.read at hread
  split at hread
  · exact isOfScanning_of_map_flush hread
  · exact isOfScanning_of_flush hread
  · unfold ScanState.gather at hread
    split at hread
    · split at hread
      · cases hread
      · exact isOfScanning_of_map_flush hread
    · cases hread
  · cases hread
    exact List.mem_cons_self

theorem isOfScanning_of_scanFrom {state : ScanState} {position : Nat}
    {chars : List Char} {fault : Fault}
    (hscan : scanFrom state position chars = .error fault) : fault.IsOfScanning := by
  induction chars generalizing state position with
  | nil => cases hscan
  | cons char rest ih =>
      rw [scanFrom] at hscan
      cases hread : state.read position char with
      | ok next =>
          rw [hread] at hscan
          exact ih hscan
      | error found =>
          rw [hread] at hscan
          cases hscan
          exact isOfScanning_of_read hread

/-- A text without tokens fails because of its characters or its runs. -/
theorem isOfScanning_of_scan {chars : List Char} {fault : Fault}
    (hscan : scan chars = .error fault) : fault.IsOfScanning := by
  unfold scan at hscan
  cases hstate : scanFrom .start 0 chars with
  | ok state =>
      rw [hstate] at hscan
      exact isOfScanning_of_map_flush hscan
  | error found =>
      rw [hstate] at hscan
      cases hscan
      exact isOfScanning_of_scanFrom hstate

/-! ## Pieces -/

/-- The piece is scanned into the tokens, whatever stands in front of it and behind it,
as long as nothing continues its last run. -/
def ScansTo (chars : List Char) (position : Nat) (tokens : List Token) : Prop :=
  ∀ before rest, Interrupts rest →
    scanOn ⟨before, none⟩ position (chars ++ rest) =
      scanOn ⟨tokens.reverse ++ before, none⟩ (position + chars.length) rest

theorem scansTo_nil (position : Nat) : ScansTo [] position [] :=
  fun _ _ _ => rfl

/-- A run is a piece with one token. -/
theorem scansTo_run {kind : RunKind} {chars : List Char} (hnonempty : chars ≠ [])
    (hmembers : ∀ char ∈ chars, classify char = .runMember kind) {position : Nat}
    {token : Token} (htoken : kind.token chars position = .ok token) :
    ScansTo chars position [token] :=
  fun before _ hinterrupts =>
    scanOn_run hnonempty hmembers (hinterrupts.ends kind) htoken before

theorem ScansTo.symbol {char : Char} {kind : Kind}
    (hsymbol : classify char = .symbol kind) {chars : List Char} {position : Nat}
    {tokens : List Token} (hchars : ScansTo chars (position + 1) tokens) :
    ScansTo (char :: chars) position
      (⟨kind, String.ofList [char], position, none⟩ :: tokens) := by
  intro before rest hinterrupts
  rw [List.cons_append, scanOn_cons, read_symbol hsymbol]
  refine (hchars _ rest hinterrupts).trans ?_
  rw [List.reverse_cons, List.append_assoc, List.singleton_append, List.length_cons,
    Nat.add_assoc, Nat.add_comm 1]

theorem ScansTo.separator {char : Char} (hseparator : classify char = .separator)
    {chars : List Char} {position : Nat} {tokens : List Token}
    (hchars : ScansTo chars (position + 1) tokens) :
    ScansTo (char :: chars) position tokens := by
  intro before rest hinterrupts
  rw [List.cons_append, scanOn_cons, read_separator hseparator]
  refine (hchars _ rest hinterrupts).trans ?_
  rw [List.length_cons, Nat.add_assoc, Nat.add_comm 1]

/-- Pieces are put together where the second one does not continue a run. -/
theorem ScansTo.append {char : Char} (hother : ∀ kind, classify char ≠ .runMember kind)
    {firsts seconds : List Char} {position : Nat} {tokens others : List Token}
    (hfirst : ScansTo firsts position tokens)
    (hsecond : ScansTo (char :: seconds) (position + firsts.length) others) :
    ScansTo (firsts ++ char :: seconds) position (tokens ++ others) := by
  intro before rest hinterrupts
  have hbefore := hfirst before (char :: seconds ++ rest) (interrupts_cons hother _)
  have hbehind := hsecond (tokens.reverse ++ before) rest hinterrupts
  rw [List.append_assoc, hbefore, hbehind, List.reverse_append, List.append_assoc,
    List.length_append, Nat.add_assoc]

/-- A whole text has the tokens of its only piece. -/
theorem scan_of_scansTo {chars : List Char} {tokens : List Token}
    (hchars : ScansTo chars 0 tokens) : scan chars = .ok tokens := by
  have hscanned := hchars [] [] interrupts_nil
  rw [List.append_nil, List.append_nil] at hscanned
  rw [scan_eq_scanOn]
  change (scanOn ⟨[], none⟩ 0 chars).map _ = _
  rw [hscanned]
  change Except.ok tokens.reverse.reverse = _
  rw [List.reverse_reverse]

end InfixCalc
