import InfixCalc.Proofs.Tiling

/-!
# Where scanning stops

A text without tokens has a first place at which the scanner stops.  It stops at an
illegal character, even directly behind a run that is no token, or at the first
character of such a run as soon as anything else ends it.  Up to there the text is cut
into pieces like any other.
-/

namespace InfixCalc

/-! ## Runs that are no tokens -/

theorem numeralToken_eq_error {run : List Char} {position : Int} {fault : Fault}
    (hbad : numeralToken run position = .error fault) :
    numeralValue? run = none ∧
      fault = .located position (.malformedNumber (String.ofList run)) := by
  unfold numeralToken at hbad
  split at hbad <;> cases hbad
  exact ⟨by assumption, rfl⟩

theorem wordToken_eq_error {run : List Char} {position : Int} {fault : Fault}
    (hbad : wordToken run position = .error fault) :
    Fn.ofName? (String.ofList run) = none ∧ constantValue? (String.ofList run) = none ∧
      fault = .located position (.unknownIdentifier (String.ofList run)) := by
  simp only [wordToken] at hbad
  split at hbad <;> cases hbad
  exact ⟨by assumption, by assumption, rfl⟩

/-! ## Stopping -/

/-- Scanning the text that begins at `position` stops with this fault. -/
inductive Stops : Nat → List Char → Fault → Prop
  | illegal {position : Nat} {char : Char} {rest : List Char}
      (hillegal : classify char = .illegal) :
      Stops position (char :: rest) (.located position (.unexpectedCharacter char))
  | interrupted {position : Nat} {kind : RunKind} {run rest : List Char} {char : Char}
      {unseen : Fault} (hnonempty : run ≠ [])
      (hmembers : ∀ member ∈ run, classify member = .runMember kind)
      (hbad : kind.token run position = .error unseen)
      (hillegal : classify char = .illegal) :
      Stops position (run ++ char :: rest)
        (.located (position + run.length : Nat) (.unexpectedCharacter char))
  | badRun {position : Nat} {kind : RunKind} {run rest : List Char} {fault : Fault}
      (hnonempty : run ≠ []) (hmembers : ∀ char ∈ run, classify char = .runMember kind)
      (hends : Ends kind rest) (hlegal : ∀ char ∈ rest.head?, classify char ≠ .illegal)
      (hbad : kind.token run position = .error fault) :
      Stops position (run ++ rest) fault
  | separator {position : Nat} {char : Char} {rest : List Char} {fault : Fault}
      (hseparator : classify char = .separator)
      (hrest : Stops (position + 1) rest fault) :
      Stops position (char :: rest) fault
  | symbol {position : Nat} {char : Char} {kind : Kind} {rest : List Char}
      {fault : Fault} (hsymbol : classify char = .symbol kind)
      (hrest : Stops (position + 1) rest fault) :
      Stops position (char :: rest) fault
  | run {position : Nat} {kind : RunKind} {run rest : List Char} {token : Token}
      {fault : Fault} (hnonempty : run ≠ [])
      (hmembers : ∀ char ∈ run, classify char = .runMember kind)
      (hends : Ends kind rest) (htoken : kind.token run position = .ok token)
      (hrest : Stops (position + run.length) rest fault) :
      Stops position (run ++ rest) fault

/-- What stops the scanner behind a run that is no token. -/
theorem stops_of_badRun {kind : RunKind} {run rest : List Char} (hnonempty : run ≠ [])
    (hmembers : ∀ char ∈ run, classify char = .runMember kind) (hends : Ends kind rest)
    {position : Nat} {bad : Fault} (hbad : kind.token run position = .error bad)
    {before : List Token} {fault : Fault}
    (hscan : scanOn ⟨before, none⟩ position (run ++ rest) = .error fault) :
    Stops position (run ++ rest) fault := by
  rw [scanOn_gathered hnonempty hmembers] at hscan
  have hrun : OpenRun.token ⟨kind, position, run.reverse⟩ = .error bad := by
    rw [← hbad, OpenRun.token, List.reverse_reverse]
  cases rest with
  | nil =>
      simp only [scanOn, scanFrom, Except.bind, ScanState.flush, hrun] at hscan
      cases hscan
      exact .badRun hnonempty hmembers hends (by simp) hbad
  | cons char rest =>
      rw [scanOn_cons] at hscan
      by_cases hillegal : classify char = .illegal
      · rw [read_illegal hillegal] at hscan
        cases hscan
        exact .interrupted hnonempty hmembers hbad hillegal
      · rw [read_behind_badRun hrun (hends char rfl) hillegal] at hscan
        cases hscan
        refine .badRun hnonempty hmembers hends (fun first hmem => ?_) hbad
        cases hmem
        exact hillegal

theorem stops_of_scanOn (chars : List Char) {before : List Token} {position : Nat}
    {fault : Fault} (hscan : scanOn ⟨before, none⟩ position chars = .error fault) :
    Stops position chars fault := by
  match chars with
  | [] => cases hscan
  | char :: rest =>
      cases hclass : classify char with
      | illegal =>
          rw [scanOn_cons, read_illegal hclass] at hscan
          cases hscan
          exact .illegal hclass
      | separator =>
          rw [scanOn_cons, read_separator hclass] at hscan
          exact .separator hclass (stops_of_scanOn rest hscan)
      | symbol kind =>
          rw [scanOn_cons, read_symbol hclass] at hscan
          exact .symbol hclass (stops_of_scanOn rest hscan)
      | runMember kind =>
          obtain ⟨further, behind, hrest, hmembers, hends⟩ := exists_run hclass rest
          have hnonempty := List.cons_ne_nil char further
          have hshorter : behind.length ≤ rest.length := by
            rw [hrest, List.length_append]
            omega
          rw [hrest, ← List.cons_append] at hscan ⊢
          cases htoken : kind.token (char :: further) position with
          | error bad => exact stops_of_badRun hnonempty hmembers hends htoken hscan
          | ok token =>
              rw [scanOn_run hnonempty hmembers hends htoken] at hscan
              exact .run hnonempty hmembers hends htoken (stops_of_scanOn behind hscan)
termination_by chars.length
decreasing_by
  all_goals simp only [List.length_cons]
  all_goals omega

/-- A text without tokens stops the scanner with the fault that it is refused for. -/
theorem stops_of_scan {chars : List Char} {fault : Fault}
    (hscan : scan chars = .error fault) : Stops 0 chars fault := by
  rw [scan_eq_scanOn] at hscan
  cases hfinal : scanOn .start 0 chars with
  | ok final =>
      rw [hfinal] at hscan
      cases hscan
  | error found =>
      rw [hfinal] at hscan
      cases hscan
      exact stops_of_scanOn chars hfinal

end InfixCalc
