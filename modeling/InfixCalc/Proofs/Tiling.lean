import Mathlib
import InfixCalc.Proofs.Scanning

/-!
# Texts cut into tokens

A text that is scanned without a fault falls into symbols, separators and runs that do
not go on behind their end.  The scanner finds exactly these pieces.  So a text may be
cut anywhere but inside a run, and its two parts have the tokens of the whole.
-/

namespace InfixCalc

/-! ## Runs that are tokens -/

theorem numeralToken_eq_ok {run : List Char} {position : Int} {token : Token}
    (htoken : numeralToken run position = .ok token) :
    ∃ value, numeralValue? run = some value ∧
      token = ⟨.number, String.ofList run, position, some value⟩ := by
  unfold numeralToken at htoken
  split at htoken
  · cases htoken
    exact ⟨_, by assumption, rfl⟩
  · cases htoken

theorem wordToken_eq_ok {run : List Char} {position : Int} {token : Token}
    (htoken : wordToken run position = .ok token) :
    (∃ fn, Fn.ofName? (String.ofList run) = some fn ∧
        token = ⟨.function, String.ofList run, position, none⟩) ∨
      ∃ value, constantValue? (String.ofList run) = some value ∧
        token = ⟨.constant, String.ofList run, position, some value⟩ := by
  simp only [wordToken] at htoken
  split at htoken
  · cases htoken
    exact .inl ⟨_, by assumption, rfl⟩
  · cases htoken
    exact .inr ⟨_, by assumption, rfl⟩
  · cases htoken

/-- A token made of a run repeats it at its position. -/
theorem RunKind.token_eq_ok {kind : RunKind} {run : List Char} {position : Int}
    {token : Token} (htoken : kind.token run position = .ok token) :
    token.text = String.ofList run ∧ token.position = position := by
  cases kind with
  | numeral =>
      obtain ⟨value, -, rfl⟩ := numeralToken_eq_ok htoken
      exact ⟨rfl, rfl⟩
  | word =>
      rcases wordToken_eq_ok htoken with ⟨fn, -, rfl⟩ | ⟨value, -, rfl⟩ <;>
        exact ⟨rfl, rfl⟩

theorem RunKind.isWellFormed_token {kind : RunKind} {run : List Char} {position : Int}
    {token : Token} (htoken : kind.token run position = .ok token) :
    token.isWellFormed = true := by
  cases kind with
  | numeral =>
      obtain ⟨value, -, rfl⟩ := numeralToken_eq_ok htoken
      rfl
  | word =>
      rcases wordToken_eq_ok htoken with ⟨fn, hfn, rfl⟩ | ⟨value, -, rfl⟩
      · exact Option.isSome_of_mem hfn
      · rfl

theorem isWellFormed_symbol {char : Char} {kind : Kind}
    (hsymbol : classify char = .symbol kind) (position : Int) :
    Token.isWellFormed ⟨kind, String.ofList [char], position, none⟩ = true := by
  rcases symbolKind?_eq_some (classify_eq_symbol_iff.mp hsymbol) with
    ⟨-, rfl⟩ | ⟨-, rfl⟩ | ⟨op, rfl, rfl⟩
  · rfl
  · rfl
  · cases op <;> rfl

/-! ## Pieces -/

/-- Cut at the ends of its runs, the text that begins at `position` has these tokens. -/
inductive Tiling : Nat → List Char → List Token → Prop
  | nil (position : Nat) : Tiling position [] []
  | separator {position : Nat} {char : Char} {rest : List Char} {tokens : List Token}
      (hseparator : classify char = .separator)
      (hrest : Tiling (position + 1) rest tokens) :
      Tiling position (char :: rest) tokens
  | symbol {position : Nat} {char : Char} {kind : Kind} {rest : List Char}
      {tokens : List Token} (hsymbol : classify char = .symbol kind)
      (hrest : Tiling (position + 1) rest tokens) :
      Tiling position (char :: rest)
        (⟨kind, String.ofList [char], position, none⟩ :: tokens)
  | run {position : Nat} {kind : RunKind} {run rest : List Char} {token : Token}
      {tokens : List Token} (hnonempty : run ≠ [])
      (hmembers : ∀ char ∈ run, classify char = .runMember kind)
      (hends : Ends kind rest) (htoken : kind.token run position = .ok token)
      (hrest : Tiling (position + run.length) rest tokens) :
      Tiling position (run ++ rest) (token :: tokens)

theorem Tiling.of_separator {position : Nat} {char : Char} {rest : List Char}
    {tokens : List Token} (hseparator : classify char = .separator)
    (htiling : Tiling position (char :: rest) tokens) :
    Tiling (position + 1) rest tokens := by
  generalize hchars : char :: rest = chars at htiling
  cases htiling with
  | nil => cases hchars
  | separator _ hrest =>
      cases hchars
      exact hrest
  | symbol hsymbol =>
      cases hchars
      rw [hseparator] at hsymbol
      cases hsymbol
  | run hnonempty hmembers =>
      obtain ⟨first, further, rfl⟩ := List.exists_cons_of_ne_nil hnonempty
      cases hchars
      have hmember := hmembers char List.mem_cons_self
      rw [hseparator] at hmember
      cases hmember

theorem Tiling.of_symbol {position : Nat} {char : Char} {kind : Kind} {rest : List Char}
    {tokens : List Token} (hsymbol : classify char = .symbol kind)
    (htiling : Tiling position (char :: rest) tokens) :
    ∃ others, tokens = ⟨kind, String.ofList [char], position, none⟩ :: others ∧
      Tiling (position + 1) rest others := by
  generalize hchars : char :: rest = chars at htiling
  cases htiling with
  | nil => cases hchars
  | separator hseparator =>
      cases hchars
      rw [hsymbol] at hseparator
      cases hseparator
  | symbol hfound hrest =>
      cases hchars
      rw [hsymbol] at hfound
      cases hfound
      exact ⟨_, rfl, hrest⟩
  | run hnonempty hmembers =>
      obtain ⟨first, further, rfl⟩ := List.exists_cons_of_ne_nil hnonempty
      cases hchars
      have hmember := hmembers char List.mem_cons_self
      rw [hsymbol] at hmember
      cases hmember

theorem Tiling.eq_nil {position : Nat} {tokens : List Token}
    (htiling : Tiling position [] tokens) : tokens = [] := by
  generalize hchars : ([] : List Char) = chars at htiling
  cases htiling with
  | nil => rfl
  | separator => cases hchars
  | symbol => cases hchars
  | run hnonempty => exact absurd (List.append_eq_nil_iff.mp hchars.symm).1 hnonempty

/-- A run alone is a single token. -/
theorem Tiling.of_run {position : Nat} {kind : RunKind} {run : List Char}
    {tokens : List Token} (hnonempty : run ≠ [])
    (hmembers : ∀ char ∈ run, classify char = .runMember kind)
    (htiling : Tiling position run tokens) :
    ∃ token, tokens = [token] ∧ kind.token run position = .ok token := by
  cases htiling with
  | nil => exact absurd rfl hnonempty
  | separator hseparator =>
      rw [hmembers _ List.mem_cons_self] at hseparator
      cases hseparator
  | symbol hsymbol =>
      rw [hmembers _ List.mem_cons_self] at hsymbol
      cases hsymbol
  | @run position other first rest token tokens hsome hsame hends htoken hrest =>
      obtain ⟨char, further, rfl⟩ := List.exists_cons_of_ne_nil hsome
      have hkind := hmembers char List.mem_cons_self
      rw [hsame char List.mem_cons_self] at hkind
      cases hkind
      cases rest with
      | nil =>
          rw [hrest.eq_nil, List.append_nil]
          exact ⟨token, rfl, htoken⟩
      | cons behind rest =>
          have hgoes := hmembers behind (List.mem_append_right _ List.mem_cons_self)
          exact absurd hgoes (hends behind rfl)

/-- A word alone is a single token. -/
theorem Tiling.of_word {word : List Char} (hnonempty : word ≠ [])
    (hletters : (word.all fun char => classify char = .runMember .word) = true)
    {position : Nat} {tokens : List Token} (htiling : Tiling position word tokens) :
    ∃ token, tokens = [token] ∧ wordToken word position = .ok token :=
  htiling.of_run hnonempty (classify_of_all hletters)

/-- The scanner keeps the promise that tokens make to their readers. -/
theorem Tiling.isWellFormed {position : Nat} {chars : List Char} {tokens : List Token}
    (htiling : Tiling position chars tokens) :
    ∀ token ∈ tokens, token.isWellFormed = true := by
  induction htiling with
  | nil => simp
  | separator _ _ ih => exact ih
  | symbol hsymbol _ ih =>
      exact List.forall_mem_cons.mpr ⟨isWellFormed_symbol hsymbol _, ih⟩
  | run _ _ _ htoken _ ih =>
      exact List.forall_mem_cons.mpr ⟨RunKind.isWellFormed_token htoken, ih⟩

theorem Tiling.le_position {position : Nat} {chars : List Char} {tokens : List Token}
    (htiling : Tiling position chars tokens) :
    ∀ token ∈ tokens, position ≤ token.position := by
  induction htiling with
  | nil => simp
  | separator _ _ ih =>
      intro token hmem
      have hlater := ih token hmem
      omega
  | symbol _ _ ih =>
      intro token hmem
      rcases List.mem_cons.mp hmem with rfl | hmem
      · exact le_rfl
      · have hlater := ih token hmem
        omega
  | run _ _ _ htoken _ ih =>
      intro token hmem
      rcases List.mem_cons.mp hmem with rfl | hmem
      · exact (RunKind.token_eq_ok htoken).2.ge
      · have hlater := ih token hmem
        omega

theorem Tiling.position_lt {position : Nat} {chars : List Char} {tokens : List Token}
    (htiling : Tiling position chars tokens) :
    ∀ token ∈ tokens, token.position < (position + chars.length : Nat) := by
  induction htiling with
  | nil => simp
  | separator _ _ ih =>
      intro token hmem
      have hbehind := ih token hmem
      rw [List.length_cons]
      omega
  | symbol _ _ ih =>
      intro token hmem
      rw [List.length_cons]
      rcases List.mem_cons.mp hmem with rfl | hmem
      · dsimp only
        omega
      · have hbehind := ih token hmem
        omega
  | run hnonempty _ _ htoken _ ih =>
      intro token hmem
      rw [List.length_append]
      rcases List.mem_cons.mp hmem with rfl | hmem
      · have hlength := List.length_pos_of_ne_nil hnonempty
        rw [(RunKind.token_eq_ok htoken).2]
        omega
      · have hbehind := ih token hmem
        omega

/-! ## The scanner finds the pieces -/

theorem Tiling.scanOn {position : Nat} {chars : List Char} {tokens : List Token}
    (htiling : Tiling position chars tokens) (before : List Token) :
    scanOn ⟨before, none⟩ position chars = .ok ⟨tokens.reverse ++ before, none⟩ := by
  induction htiling generalizing before with
  | nil position => rfl
  | separator hseparator _ ih =>
      rw [scanOn_cons, read_separator hseparator]
      exact ih before
  | symbol hsymbol _ ih =>
      rw [scanOn_cons, read_symbol hsymbol, List.reverse_cons, List.append_assoc,
        List.singleton_append]
      exact ih _
  | run hnonempty hmembers hends htoken _ ih =>
      rw [scanOn_run hnonempty hmembers hends htoken, ih, List.reverse_cons,
        List.append_assoc, List.singleton_append]

/-- An illegal character is a fault whatever run it stands behind. -/
theorem read_illegal {char : Char} (hillegal : classify char = .illegal)
    (state : ScanState) (position : Nat) :
    state.read position char =
      .error (.located position (.unexpectedCharacter char)) := by
  simp only [ScanState.read, hillegal]

/-- Any other character that ends a run which is no token stops at the run. -/
theorem read_behind_badRun {run : OpenRun} {fault : Fault}
    (hbad : run.token = .error fault) {char : Char}
    (hends : classify char ≠ .runMember run.kind) (hlegal : classify char ≠ .illegal)
    (before : List Token) (position : Nat) :
    ScanState.read ⟨before, some run⟩ position char = .error fault := by
  unfold ScanState.read
  split
  · simp only [ScanState.flush, hbad]
    rfl
  · simp only [ScanState.flush, hbad]
  · rename_i kind hmember
    have hkind : run.kind ≠ kind := fun heq => hends (heq ▸ hmember)
    simp only [ScanState.gather, if_neg hkind, ScanState.flush, hbad]
    rfl
  · rename_i hillegal
    exact absurd hillegal hlegal

/-- Whatever ends a run that is no token ends the scanning. -/
theorem read_badRun {run : OpenRun} {fault : Fault} (hbad : run.token = .error fault)
    {char : Char} (hother : classify char ≠ .runMember run.kind) (before : List Token)
    (position : Nat) :
    ∃ found, ScanState.read ⟨before, some run⟩ position char = .error found := by
  by_cases hillegal : classify char = .illegal
  · exact ⟨_, read_illegal hillegal _ _⟩
  · exact ⟨fault, read_behind_badRun hbad hother hillegal before position⟩

theorem token_of_scanOn {run : OpenRun} {rest : List Char} (hends : Ends run.kind rest)
    {before : List Token} {position : Nat} {final : ScanState}
    (hscan : scanOn ⟨before, some run⟩ position rest = .ok final) :
    ∃ token, run.token = .ok token := by
  cases hrun : run.token with
  | ok token => exact ⟨token, rfl⟩
  | error fault =>
      cases rest with
      | nil =>
          simp only [scanOn, scanFrom, Except.bind, ScanState.flush, hrun,
            reduceCtorEq] at hscan
      | cons char rest =>
          obtain ⟨found, hread⟩ := read_badRun hrun (hends char rfl) before position
          rw [scanOn_cons, hread] at hscan
          cases hscan

/-- A run together with all that continues it. -/
theorem exists_run {char : Char} {kind : RunKind}
    (hmember : classify char = .runMember kind) (rest : List Char) :
    ∃ further behind, rest = further ++ behind ∧
      (∀ other ∈ char :: further, classify other = .runMember kind) ∧
        Ends kind behind := by
  refine ⟨rest.takeWhile fun other => classify other = .runMember kind,
    rest.dropWhile fun other => classify other = .runMember kind,
    List.takeWhile_append_dropWhile.symm, ?_, ?_⟩
  · intro other hmem
    rcases List.mem_cons.mp hmem with rfl | hmem
    · exact hmember
    · have hholds := List.mem_takeWhile_imp hmem
      exact of_decide_eq_true hholds
  · intro other hmem
    have hstops :=
      List.head?_dropWhile_not (fun other => classify other = .runMember kind) rest
    rw [Option.mem_def.mp hmem] at hstops
    simpa using hstops

/-- A text that begins with a run is scanned into the token of the whole run first. -/
theorem exists_runToken {char : Char} {kind : RunKind}
    (hmember : classify char = .runMember kind) {rest : List Char} {before : List Token}
    {position : Nat} {final : ScanState}
    (hscan : scanOn ⟨before, none⟩ position (char :: rest) = .ok final) :
    ∃ further behind token, rest = further ++ behind ∧
      (∀ other ∈ char :: further, classify other = .runMember kind) ∧ Ends kind behind ∧
      kind.token (char :: further) position = .ok token ∧
      scanOn ⟨token :: before, none⟩ (position + (char :: further).length) behind =
        .ok final := by
  obtain ⟨further, behind, rfl, hmembers, hends⟩ := exists_run hmember rest
  have hnonempty := List.cons_ne_nil char further
  have hgathered := hscan
  rw [← List.cons_append, scanOn_gathered hnonempty hmembers] at hgathered
  obtain ⟨token, hrun⟩ := token_of_scanOn hends hgathered
  have htoken : kind.token (char :: further) position = .ok token := by
    rw [← hrun, OpenRun.token, List.reverse_reverse]
  rw [← List.cons_append, scanOn_run hnonempty hmembers hends htoken] at hscan
  exact ⟨further, behind, token, rfl, hmembers, hends, htoken, hscan⟩

theorem tiling_of_scanOn (chars : List Char) {before : List Token} {position : Nat}
    {final : ScanState} (hscan : scanOn ⟨before, none⟩ position chars = .ok final) :
    ∃ tokens, Tiling position chars tokens ∧
      final = ⟨tokens.reverse ++ before, none⟩ := by
  match chars with
  | [] =>
      cases hscan
      exact ⟨[], .nil position, rfl⟩
  | char :: rest =>
      cases hclass : classify char with
      | illegal =>
          rw [scanOn_cons] at hscan
          simp only [ScanState.read, hclass] at hscan
          cases hscan
      | separator =>
          rw [scanOn_cons, read_separator hclass] at hscan
          obtain ⟨tokens, htiling, rfl⟩ := tiling_of_scanOn rest hscan
          exact ⟨tokens, .separator hclass htiling, rfl⟩
      | symbol kind =>
          rw [scanOn_cons, read_symbol hclass] at hscan
          obtain ⟨tokens, htiling, rfl⟩ := tiling_of_scanOn rest hscan
          refine ⟨_, .symbol hclass htiling, ?_⟩
          rw [List.reverse_cons, List.append_assoc, List.singleton_append]
      | runMember kind =>
          obtain ⟨further, behind, token, hrest, hmembers, hends, htoken, hbehind⟩ :=
            exists_runToken hclass hscan
          have hshorter : behind.length ≤ rest.length := by
            rw [hrest, List.length_append]
            omega
          obtain ⟨tokens, htiling, rfl⟩ := tiling_of_scanOn behind hbehind
          rw [hrest, ← List.cons_append]
          refine ⟨token :: tokens,
            .run (List.cons_ne_nil char further) hmembers hends htoken htiling, ?_⟩
          rw [List.reverse_cons, List.append_assoc, List.singleton_append]
termination_by chars.length
decreasing_by
  all_goals simp only [List.length_cons]
  all_goals omega

/-- The tokens of a text are those of its pieces, and a text without such
pieces is refused. -/
theorem scan_eq_ok_iff {chars : List Char} {tokens : List Token} :
    scan chars = .ok tokens ↔ Tiling 0 chars tokens := by
  rw [scan_eq_scanOn]
  constructor
  · intro hscan
    cases hfinal : scanOn .start 0 chars with
    | error fault =>
        rw [hfinal] at hscan
        cases hscan
    | ok final =>
        obtain ⟨found, htiling, rfl⟩ := tiling_of_scanOn chars hfinal
        rw [hfinal] at hscan
        cases hscan
        simpa only [List.append_nil, List.reverse_reverse] using htiling
  · intro htiling
    change (InfixCalc.scanOn ⟨[], none⟩ 0 chars).map _ = _
    rw [htiling.scanOn, List.append_nil]
    change Except.ok tokens.reverse.reverse = _
    rw [List.reverse_reverse]

/-! ## Cutting and joining -/

theorem ends_nil (kind : RunKind) : Ends kind [] := by
  intro char hmem
  cases hmem

/-- The place between the two stretches lies inside a run. -/
def InsideRun (front behind : List Char) : Prop :=
  ∃ kind : RunKind, (∃ char ∈ front.getLast?, kind.holds char = true) ∧
    ∃ char ∈ behind.head?, kind.holds char = true

theorem not_insideRun_nil (behind : List Char) : ¬InsideRun [] behind := by
  rintro ⟨kind, ⟨char, hmem, -⟩, -⟩
  cases hmem

theorem not_insideRun_cons {front behind : List Char} {char : Char}
    (hother : ∀ kind, classify char ≠ .runMember kind) :
    ¬InsideRun front (char :: behind) := by
  rintro ⟨kind, -, first, hmem, hholds⟩
  cases hmem
  exact hother kind (classify_eq_runMember_iff.mpr hholds)

theorem insideRun_of_members {front behind : List Char} {kind : RunKind}
    (hnonempty : front ≠ [])
    (hmembers : ∀ char ∈ front, classify char = .runMember kind) {char : Char}
    (hmem : char ∈ behind.head?) (hmember : classify char = .runMember kind) :
    InsideRun front behind := by
  obtain ⟨others, last, rfl⟩ := (List.eq_nil_or_concat' front).resolve_left hnonempty
  have hlast := hmembers last (List.mem_append_right _ (List.mem_singleton_self last))
  exact ⟨kind, ⟨last, List.getLast?_concat, classify_eq_runMember_iff.mp hlast⟩,
    char, hmem, classify_eq_runMember_iff.mp hmember⟩

theorem InsideRun.cons {front behind : List Char} (hinside : InsideRun front behind)
    (char : Char) : InsideRun (char :: front) behind := by
  obtain ⟨kind, ⟨last, hlast, hholds⟩, hbehind⟩ := hinside
  refine ⟨kind, ⟨last, ?_, hholds⟩, hbehind⟩
  rw [List.getLast?_cons, Option.mem_def.mp hlast]
  rfl

theorem InsideRun.append {front behind : List Char} (hinside : InsideRun front behind)
    (before : List Char) : InsideRun (before ++ front) behind := by
  induction before with
  | nil => exact hinside
  | cons char before ih => exact ih.cons char

theorem InsideRun.further {front behind : List Char} (hinside : InsideRun front behind)
    (rest : List Char) : InsideRun front (behind ++ rest) := by
  obtain ⟨kind, hfront, char, hmem, hholds⟩ := hinside
  refine ⟨kind, hfront, char, ?_, hholds⟩
  rw [List.head?_append, Option.mem_def.mp hmem]
  rfl

theorem add_length_cons (position : Nat) (char : Char) (chars : List Char) :
    position + (char :: chars).length = position + 1 + chars.length := by
  rw [List.length_cons]
  omega

/-- Outside the runs a text can be cut in two. -/
theorem Tiling.split {position : Nat} {chars : List Char} {tokens : List Token}
    (htiling : Tiling position chars tokens) {front behind : List Char}
    (hchars : chars = front ++ behind) (houtside : ¬InsideRun front behind) :
    ∃ firsts seconds, tokens = firsts ++ seconds ∧ Tiling position front firsts ∧
      Tiling (position + front.length) behind seconds := by
  induction htiling generalizing front with
  | nil position =>
      obtain ⟨rfl, rfl⟩ := List.append_eq_nil_iff.mp hchars.symm
      exact ⟨[], [], rfl, .nil _, .nil _⟩
  | @separator position char rest tokens hseparator hrest ih =>
      cases front with
      | nil =>
          cases hchars
          exact ⟨[], tokens, rfl, .nil _, .separator hseparator hrest⟩
      | cons first front =>
          cases hchars
          obtain ⟨firsts, seconds, rfl, hfront, hbehind⟩ :=
            ih rfl fun hinside => houtside (hinside.cons _)
          refine ⟨firsts, seconds, rfl, .separator hseparator hfront, ?_⟩
          rwa [add_length_cons]
  | @symbol position char kind rest tokens hsymbol hrest ih =>
      cases front with
      | nil =>
          cases hchars
          exact ⟨[], _, rfl, .nil _, .symbol hsymbol hrest⟩
      | cons first front =>
          cases hchars
          obtain ⟨firsts, seconds, rfl, hfront, hbehind⟩ :=
            ih rfl fun hinside => houtside (hinside.cons _)
          refine ⟨_ :: firsts, seconds, rfl, .symbol hsymbol hfront, ?_⟩
          rwa [add_length_cons]
  | @run position kind run rest token tokens hnonempty hmembers hends htoken hrest ih =>
      rcases List.append_eq_append_iff.mp hchars with
        ⟨further, rfl, rfl⟩ | ⟨further, rfl, rfl⟩
      · obtain ⟨firsts, seconds, rfl, hfront, hbehind⟩ :=
          ih rfl fun hinside => houtside (hinside.append run)
        refine ⟨token :: firsts, seconds, rfl,
          .run hnonempty hmembers ?_ htoken hfront, ?_⟩
        · intro char hmem
          refine hends char ?_
          rw [List.head?_append, Option.mem_def.mp hmem]
          rfl
        · rwa [List.length_append, ← Nat.add_assoc]
      · cases further with
        | nil =>
            rw [List.append_nil] at hnonempty hmembers htoken hrest
            have hlone := Tiling.run hnonempty hmembers (ends_nil kind) htoken (.nil _)
            rw [List.append_nil] at hlone
            exact ⟨[token], tokens, rfl, hlone, hrest⟩
        | cons char others =>
            -- A part of the run lies behind the cut, so the cut is where the run
            -- begins.
            by_cases hfront : front = []
            · subst hfront
              exact ⟨[], token :: tokens, rfl, .nil _,
                .run hnonempty hmembers hends htoken hrest⟩
            · obtain ⟨hbefore, hafter⟩ := List.forall_mem_append.mp hmembers
              have hfirst := hafter char List.mem_cons_self
              exact absurd (insideRun_of_members hfront hbefore rfl hfirst) houtside

/-- Two stretches are joined where no run goes on from one to the other. -/
theorem Tiling.append {position : Nat} {front behind : List Char}
    {firsts seconds : List Token} (hfront : Tiling position front firsts)
    (hbehind : Tiling (position + front.length) behind seconds)
    (houtside : ¬InsideRun front behind) :
    Tiling position (front ++ behind) (firsts ++ seconds) := by
  induction hfront with
  | nil position => exact hbehind
  | @separator position char rest tokens hseparator hrest ih =>
      refine .separator hseparator (ih ?_ fun hinside => houtside (hinside.cons _))
      rwa [add_length_cons] at hbehind
  | @symbol position char kind rest tokens hsymbol hrest ih =>
      refine .symbol hsymbol (ih ?_ fun hinside => houtside (hinside.cons _))
      rwa [add_length_cons] at hbehind
  | @run position kind run rest token tokens hnonempty hmembers hends htoken hrest ih =>
      rw [List.append_assoc]
      refine .run hnonempty hmembers ?_ htoken
        (ih ?_ fun hinside => houtside (hinside.append run))
      · cases rest with
        | cons char rest => exact hends
        | nil =>
            intro char hmem hmember
            rw [List.append_nil] at houtside
            exact houtside (insideRun_of_members hnonempty hmembers hmem hmember)
      · rwa [List.length_append, ← Nat.add_assoc] at hbehind

end InfixCalc
