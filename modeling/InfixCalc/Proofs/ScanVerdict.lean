import InfixCalc.Proofs.ScanFaults
import InfixCalc.Proofs.TokenPlaces

/-!
# Which fault of a text is reported

A text may have many bad runs and illegal characters.  The scanner reports the leftmost
bad run among those that end before the first illegal character.  Only if there is none,
it reports the illegal character, which also spares the run that it interrupts.
-/

namespace InfixCalc

/-! ## Legal characters -/

/-- A character that a text may be made of. -/
def isLegal (char : Char) : Bool :=
  (symbolKind? char).isSome || isSeparator char || isNumeralChar char || char.isAlpha

theorem isLegal_eq_true_iff {char : Char} :
    isLegal char = true ↔ classify char ≠ .illegal := by
  grind [isLegal, classify]

/-- The text in front of its first illegal character. -/
def legalPart (chars : List Char) : List Char :=
  chars.takeWhile isLegal

/-- The text from its first illegal character on. -/
def illegalPart (chars : List Char) : List Char :=
  chars.dropWhile isLegal

theorem legalPart_append {front : List Char}
    (hfront : ∀ char ∈ front, isLegal char = true) (rest : List Char) :
    legalPart (front ++ rest) = front ++ legalPart rest :=
  List.takeWhile_append_of_pos hfront

theorem illegalPart_append {front : List Char}
    (hfront : ∀ char ∈ front, isLegal char = true) (rest : List Char) :
    illegalPart (front ++ rest) = illegalPart rest :=
  List.dropWhile_append_of_pos hfront

theorem isLegal_of_members {kind : RunKind} {run : List Char}
    (hmembers : ∀ char ∈ run, classify char = .runMember kind) :
    ∀ char ∈ run, isLegal char = true := by
  intro char hmem
  rw [isLegal_eq_true_iff, hmembers char hmem]
  exact nofun

theorem Tiling.isLegal {position : Nat} {chars : List Char} {tokens : List Token}
    (htiling : Tiling position chars tokens) : ∀ char ∈ chars, isLegal char = true := by
  induction htiling with
  | nil => exact nofun
  | separator hseparator _ ih =>
      refine List.forall_mem_cons.mpr ⟨isLegal_eq_true_iff.mpr ?_, ih⟩
      rw [hseparator]
      exact nofun
  | symbol hsymbol _ ih =>
      refine List.forall_mem_cons.mpr ⟨isLegal_eq_true_iff.mpr ?_, ih⟩
      rw [hsymbol]
      exact nofun
  | run _ hmembers _ _ _ ih =>
      exact List.forall_mem_append.mpr ⟨isLegal_of_members hmembers, ih⟩

/-! ## Bad runs -/

/-- A numeral needs a digit and may have one point.  A word has to be a name. -/
def RunKind.IsBad : RunKind → List Char → Prop
  | .numeral, run => (∀ char ∈ run, char.isDigit = false) ∨ 2 ≤ run.count '.'
  | .word, run => String.ofList run ∉ ["min", "max", "pi"]

/-- What is said of a bad run. -/
def RunKind.complaint (kind : RunKind) (position : Int) (run : List Char) : Fault :=
  match kind with
  | .numeral => .located position (.malformedNumber (String.ofList run))
  | .word => .located position (.unknownIdentifier (String.ofList run))

theorem filter_ne_point_eq_nil_iff {run : List Char}
    (hmembers : ∀ char ∈ run, isNumeralChar char = true) :
    run.filter (· != '.') = [] ↔ ∀ char ∈ run, char.isDigit = false := by
  rw [List.filter_eq_nil_iff]
  refine forall₂_congr fun char hmem => ?_
  have hmember := hmembers char hmem
  rw [isNumeralChar, Bool.or_eq_true, decide_eq_true_eq] at hmember
  rw [bne_iff_ne, not_not]
  constructor
  · rintro rfl
    rfl
  · intro hdigit
    exact hmember.resolve_right (by rw [hdigit]; exact Bool.false_ne_true)

theorem numeralValue?_eq_none_iff {run : List Char}
    (hmembers : ∀ char ∈ run, isNumeralChar char = true) :
    numeralValue? run = none ↔ RunKind.numeral.IsBad run := by
  rw [RunKind.IsBad, ← filter_ne_point_eq_nil_iff hmembers]
  simp only [numeralValue?]
  split
  · rename_i hbad
    exact iff_of_true rfl hbad
  · rename_i hgood
    exact iff_of_false (Option.some_ne_none _) hgood

theorem not_mem_names_iff {text : String} :
    text ∉ ["min", "max", "pi"] ↔ Fn.ofName? text = none ∧
      constantValue? text = none := by
  grind [Fn.ofName?, Fn.all, Fn.name, constantValue?]

/-- A run that is no token is bad. -/
theorem RunKind.isBad_of_token {kind : RunKind} {run : List Char} {position : Int}
    {fault : Fault} (hmembers : ∀ char ∈ run, classify char = .runMember kind)
    (hbad : kind.token run position = .error fault) :
    kind.IsBad run ∧ fault = kind.complaint position run := by
  cases kind with
  | numeral =>
      obtain ⟨hnone, rfl⟩ := numeralToken_eq_error hbad
      refine ⟨(numeralValue?_eq_none_iff fun char hmem => ?_).mp hnone, rfl⟩
      exact classify_eq_runMember_iff.mp (hmembers char hmem)
  | word =>
      obtain ⟨hfn, hconstant, rfl⟩ := wordToken_eq_error hbad
      exact ⟨not_mem_names_iff.mpr ⟨hfn, hconstant⟩, rfl⟩

theorem RunKind.not_isBad_of_token {kind : RunKind} {run : List Char} {position : Int}
    {token : Token} (hmembers : ∀ char ∈ run, classify char = .runMember kind)
    (htoken : kind.token run position = .ok token) : ¬kind.IsBad run := by
  intro hbad
  cases kind with
  | numeral =>
      obtain ⟨value, hvalue, -⟩ := numeralToken_eq_ok htoken
      have hnone := (numeralValue?_eq_none_iff fun char hmem =>
        classify_eq_runMember_iff.mp (hmembers char hmem)).mpr hbad
      rw [hvalue] at hnone
      cases hnone
  | word =>
      obtain ⟨hfn, hconstant⟩ := not_mem_names_iff.mp hbad
      rcases wordToken_eq_ok htoken with ⟨fn, hfound, -⟩ | ⟨value, hfound, -⟩
      · rw [hfn] at hfound
        cases hfound
      · rw [hconstant] at hfound
        cases hfound

/-! ## Maximal runs -/

/-- A character is a member of runs of one kind only. -/
theorem RunKind.eq_of_holds {kind other : RunKind} {char : Char}
    (hholds : kind.holds char = true) (hother : other.holds char = true) :
    kind = other := by
  rw [← classify_eq_runMember_iff] at hholds hother
  rw [hholds] at hother
  cases hother
  rfl

theorem IsMaximal.not_insideRun {kind : RunKind} {before run behind : List Char}
    (hmaximal : IsMaximal kind before run behind) :
    ¬InsideRun before (run ++ behind) := by
  rintro ⟨other, ⟨last, hlast, hholds⟩, char, hmem, hgoes⟩
  obtain ⟨first, further, rfl⟩ := List.exists_cons_of_ne_nil hmaximal.nonempty
  cases hmem
  have hfirst := hmaximal.members char List.mem_cons_self
  rw [RunKind.eq_of_holds hgoes hfirst, hmaximal.starts last hlast] at hholds
  cases hholds

theorem IsMaximal.classify_members {kind : RunKind} {before run behind : List Char}
    (hmaximal : IsMaximal kind before run behind) :
    ∀ char ∈ run, classify char = .runMember kind :=
  fun char hmem => classify_eq_runMember_iff.mpr (hmaximal.members char hmem)

theorem IsMaximal.ends_behind {kind : RunKind} {before run behind : List Char}
    (hmaximal : IsMaximal kind before run behind) : Ends kind behind := by
  intro char hmem hmember
  have hends := hmaximal.ends char hmem
  rw [classify_eq_runMember_iff.mp hmember] at hends
  cases hends

/-- The maximal runs of a text that is cut into tokens are tokens. -/
theorem Tiling.not_isBad {chars : List Char} {tokens : List Token}
    (htiling : Tiling 0 chars tokens) {kind : RunKind} {before run behind : List Char}
    (hchars : chars = before ++ (run ++ behind))
    (hmaximal : IsMaximal kind before run behind) : ¬kind.IsBad run := by
  have hmembers := hmaximal.classify_members
  obtain ⟨-, others, -, -, hothers⟩ := htiling.split hchars hmaximal.not_insideRun
  have hoff := @not_insideRun_of_ends [] run behind kind hmaximal.nonempty hmembers
    hmaximal.ends_behind
  obtain ⟨firsts, -, -, hrun, -⟩ := hothers.split rfl hoff
  obtain ⟨token, -, htoken⟩ := hrun.of_run hmaximal.nonempty hmembers
  exact RunKind.not_isBad_of_token hmembers htoken

/-- A maximal run that begins in a stretch which no run leaves is a maximal run of that
stretch. -/
theorem IsMaximal.inside {kind : RunKind} {before run behind : List Char}
    (hmaximal : IsMaximal kind before run behind) {front rest : List Char}
    (hchars : front ++ rest = before ++ (run ++ behind))
    (hbegins : before.length < front.length) (houtside : ¬InsideRun front rest) :
    ∃ further, front = before ++ (run ++ further) ∧
      IsMaximal kind before run further := by
  rcases List.append_eq_append_iff.mp hchars with ⟨others, rfl, -⟩ | ⟨others, rfl, hrun⟩
  · rw [List.length_append] at hbegins
    omega
  · rcases List.append_eq_append_iff.mp hrun with
      ⟨further, rfl, rfl⟩ | ⟨further, rfl, rfl⟩
    · refine ⟨further, rfl, hmaximal.nonempty, hmaximal.members, hmaximal.starts, ?_⟩
      intro char hmem
      refine hmaximal.ends char ?_
      rw [List.head?_append, Option.mem_def.mp hmem]
      rfl
    · cases further with
      | nil =>
          rw [List.append_nil] at hmaximal ⊢
          exact ⟨[], by rw [List.append_nil], hmaximal.nonempty, hmaximal.members,
            hmaximal.starts, nofun⟩
      | cons char further =>
          have hnonempty : others ≠ [] := by
            rintro rfl
            rw [List.append_nil] at hbegins
            exact absurd hbegins (lt_irrefl _)
          obtain ⟨hothers, hfurther⟩ :=
            List.forall_mem_append.mp hmaximal.classify_members
          have hinside : InsideRun others (char :: (further ++ behind)) :=
            insideRun_of_members hnonempty hothers rfl
              (hfurther char List.mem_cons_self)
          exact absurd (hinside.append before) houtside

/-- Inside of a run nothing is maximal but its end. -/
theorem IsMaximal.eq_nil_of_subset {kind other : RunKind}
    {before found behind run : List Char}
    (hmaximal : IsMaximal other before found behind)
    (hmembers : ∀ char ∈ run, classify char = .runMember kind) (hfound : found ⊆ run)
    (hbehind : behind ⊆ run) : behind = [] := by
  cases behind with
  | nil => rfl
  | cons next behind =>
      obtain ⟨first, further, rfl⟩ := List.exists_cons_of_ne_nil hmaximal.nonempty
      have hfirst := hmaximal.classify_members first List.mem_cons_self
      rw [hmembers first (hfound List.mem_cons_self)] at hfirst
      cases hfirst
      exact absurd (hmembers next (hbehind List.mem_cons_self))
        (hmaximal.ends_behind next rfl)

/-- A maximal run that ends before the text does begins in front of the run
at its end. -/
theorem IsMaximal.begins_before {kind other : RunKind}
    {before found behind front run : List Char}
    (hmaximal : IsMaximal other before found behind) (hbehind : behind ≠ [])
    (hchars : front ++ run = before ++ (found ++ behind))
    (hmembers : ∀ char ∈ run, classify char = .runMember kind) :
    before.length < front.length := by
  by_contra hlater
  obtain ⟨others, rfl⟩ := List.prefix_of_prefix_length_le (List.prefix_append front run)
    (hchars ▸ List.prefix_append before _) (Nat.not_lt.mp hlater)
  rw [List.append_assoc] at hchars
  have hrun := List.append_cancel_left hchars
  have hinside : found ++ behind ⊆ run := hrun ▸ List.subset_append_right others _
  obtain ⟨hfound, hrest⟩ := List.append_subset.mp hinside
  exact hbehind (hmaximal.eq_nil_of_subset hmembers hfound hrest)

/-- A run is all that its first character begins. -/
theorem IsMaximal.eq_takeWhile {kind : RunKind} {before run behind : List Char}
    (hmaximal : IsMaximal kind before run behind) :
    run = (run ++ behind).takeWhile kind.holds := by
  rw [List.takeWhile_append_of_pos hmaximal.members]
  cases behind with
  | nil => rw [List.takeWhile_nil, List.append_nil]
  | cons char behind =>
      rw [List.takeWhile_cons_of_neg (by simp [hmaximal.ends char rfl]),
        List.append_nil]

theorem IsMaximal.unique {kind other : RunKind}
    {before run behind found rest : List Char}
    (hmaximal : IsMaximal kind before run behind)
    (hother : IsMaximal other before found rest)
    (hruns : run ++ behind = found ++ rest) : kind = other ∧ run = found := by
  have hkind : kind = other := by
    obtain ⟨char, further, rfl⟩ := List.exists_cons_of_ne_nil hmaximal.nonempty
    obtain ⟨first, others, rfl⟩ := List.exists_cons_of_ne_nil hother.nonempty
    rw [List.cons_append, List.cons_append] at hruns
    obtain ⟨rfl, -⟩ := List.cons.inj hruns
    exact RunKind.eq_of_holds (hmaximal.members _ List.mem_cons_self)
      (hother.members _ List.mem_cons_self)
  subst hkind
  refine ⟨rfl, ?_⟩
  rw [hmaximal.eq_takeWhile, hruns, ← hother.eq_takeWhile]

/-! ## Runs that count -/

/-- A maximal run of the legal part, unless it is the last thing there and an illegal
character interrupts it. -/
structure IsCounted (chars : List Char) (kind : RunKind)
    (before run behind : List Char) : Prop where
  legal : legalPart chars = before ++ (run ++ behind)
  maximal : IsMaximal kind before run behind
  uninterrupted : behind = [] → illegalPart chars = []

def HasNoBadRun (chars : List Char) : Prop :=
  ∀ kind before run behind, IsCounted chars kind before run behind → ¬kind.IsBad run

structure IsLeftmostBad (chars : List Char) (kind : RunKind)
    (before run behind : List Char) : Prop where
  counted : IsCounted chars kind before run behind
  bad : kind.IsBad run
  leftmost : ∀ other front found rest, IsCounted chars other front found rest →
    other.IsBad found → before.length ≤ front.length

theorem IsLeftmostBad.not_hasNoBadRun {chars : List Char} {kind : RunKind}
    {before run behind : List Char}
    (hleftmost : IsLeftmostBad chars kind before run behind) : ¬HasNoBadRun chars :=
  fun hgood => hgood _ _ _ _ hleftmost.counted hleftmost.bad

theorem IsLeftmostBad.unique {chars : List Char} {kind other : RunKind}
    {before run behind front found rest : List Char}
    (hleftmost : IsLeftmostBad chars kind before run behind)
    (hother : IsLeftmostBad chars other front found rest) :
    kind = other ∧ before = front ∧ run = found := by
  have hlength : before.length = front.length :=
    le_antisymm (hleftmost.leftmost _ _ _ _ hother.counted hother.bad)
      (hother.leftmost _ _ _ _ hleftmost.counted hleftmost.bad)
  have hlegal := hleftmost.counted.legal
  rw [hother.counted.legal] at hlegal
  obtain ⟨rfl, hruns⟩ := List.append_inj hlegal.symm hlength
  obtain ⟨hkind, hrun⟩ := hleftmost.counted.maximal.unique hother.counted.maximal hruns
  exact ⟨hkind, rfl, hrun⟩

/-! ## The verdict -/

/-- The text is refused for its leftmost bad run, or else for its first illegal
character. -/
inductive RefusedFor (chars : List Char) : Fault → Prop
  | badRun {kind : RunKind} {before run behind : List Char}
      (hleftmost : IsLeftmostBad chars kind before run behind) :
      RefusedFor chars (kind.complaint before.length run)
  | illegal {char : Char} {rest : List Char} (hgood : HasNoBadRun chars)
      (hrest : illegalPart chars = char :: rest) :
      RefusedFor chars (.located (legalPart chars).length (.unexpectedCharacter char))

theorem illegalPart_cons {char : Char} (hillegal : classify char = .illegal)
    (rest : List Char) : illegalPart (char :: rest) = char :: rest :=
  List.dropWhile_cons_of_neg fun hlegal => isLegal_eq_true_iff.mp hlegal hillegal

theorem legalPart_cons {char : Char} (hillegal : classify char = .illegal)
    (rest : List Char) : legalPart (char :: rest) = [] :=
  List.takeWhile_cons_of_neg fun hlegal => isLegal_eq_true_iff.mp hlegal hillegal

variable {front rest : List Char} {tokens : List Token}

/-- In front of the illegal character everything has been cut into tokens. -/
theorem refusedFor_illegal (hfront : Tiling 0 front tokens) {char : Char}
    (hillegal : classify char = .illegal) :
    RefusedFor (front ++ char :: rest)
      (.located front.length (.unexpectedCharacter char)) := by
  have hlegal : legalPart (front ++ char :: rest) = front := by
    rw [legalPart_append hfront.isLegal, legalPart_cons hillegal, List.append_nil]
  have hrest : illegalPart (front ++ char :: rest) = char :: rest := by
    rw [illegalPart_append hfront.isLegal, illegalPart_cons hillegal]
  have hgood : HasNoBadRun (front ++ char :: rest) :=
    fun kind before run behind hcounted =>
    hfront.not_isBad (hlegal.symm.trans hcounted.legal) hcounted.maximal
  have hrefused := RefusedFor.illegal hgood hrest
  rwa [hlegal] at hrefused

/-- The illegal character interrupts a run, and no other run is bad. -/
theorem refusedFor_interrupted (hfront : Tiling 0 front tokens) {kind : RunKind}
    {run : List Char} {char : Char} (houtside : ¬InsideRun front (run ++ char :: rest))
    (hmembers : ∀ member ∈ run, classify member = .runMember kind)
    (hillegal : classify char = .illegal) :
    RefusedFor (front ++ (run ++ char :: rest))
      (.located (front.length + run.length : Nat) (.unexpectedCharacter char)) := by
  have hlegal : legalPart (front ++ (run ++ char :: rest)) = front ++ run := by
    rw [legalPart_append hfront.isLegal, legalPart_append (isLegal_of_members hmembers),
      legalPart_cons hillegal, List.append_nil]
  have hrest : illegalPart (front ++ (run ++ char :: rest)) = char :: rest := by
    rw [illegalPart_append hfront.isLegal,
      illegalPart_append (isLegal_of_members hmembers), illegalPart_cons hillegal]
  have hgood : HasNoBadRun (front ++ (run ++ char :: rest)) := by
    intro other before found behind hcounted
    have hchars := hlegal.symm.trans hcounted.legal
    have hbehind : behind ≠ [] := by
      intro hnone
      rw [hcounted.uninterrupted hnone] at hrest
      cases hrest
    have hbegins := hcounted.maximal.begins_before hbehind hchars hmembers
    obtain ⟨further, hfound, hmaximal⟩ := hcounted.maximal.inside hchars hbegins
      fun hinside => houtside (hinside.further _)
    exact hfront.not_isBad hfound hmaximal
  have hrefused := RefusedFor.illegal hgood hrest
  rwa [hlegal, List.length_append] at hrefused

theorem mem_head_of_legalPart {chars : List Char} {char : Char}
    (hmem : char ∈ (legalPart chars).head?) : char ∈ chars.head? := by
  rw [legalPart, List.head?_takeWhile] at hmem
  exact (Option.mem_filter_iff.mp hmem).1

theorem refusedFor_badRun (hfront : Tiling 0 front tokens) {kind : RunKind}
    {run : List Char} (houtside : ¬InsideRun front (run ++ rest)) (hnonempty : run ≠ [])
    (hmembers : ∀ char ∈ run, classify char = .runMember kind) (hends : Ends kind rest)
    (hnext : ∀ char ∈ rest.head?, classify char ≠ .illegal) {fault : Fault}
    (hbad : kind.token run front.length = .error fault) :
    RefusedFor (front ++ (run ++ rest)) fault := by
  obtain ⟨hisBad, rfl⟩ := RunKind.isBad_of_token hmembers hbad
  have hlegal : legalPart (front ++ (run ++ rest)) =
      front ++ (run ++ legalPart rest) := by
    rw [legalPart_append hfront.isLegal, legalPart_append (isLegal_of_members hmembers)]
  have hwhole := isMaximal_of_run hnonempty hmembers hends houtside
  have hmaximal : IsMaximal kind front run (legalPart rest) :=
    ⟨hnonempty, hwhole.members, hwhole.starts,
      fun char hmem => hwhole.ends char (mem_head_of_legalPart hmem)⟩
  have huninterrupted : legalPart rest = [] →
      illegalPart (front ++ (run ++ rest)) = [] := by
    intro hnone
    rw [illegalPart_append hfront.isLegal,
      illegalPart_append (isLegal_of_members hmembers)]
    cases rest with
    | nil => rfl
    | cons char rest =>
        have hchar := isLegal_eq_true_iff.mpr (hnext char rfl)
        rw [legalPart, List.takeWhile_cons_of_pos hchar] at hnone
        cases hnone
  refine .badRun ⟨⟨hlegal, hmaximal, huninterrupted⟩, hisBad, ?_⟩
  intro other before found behind hcounted hfoundBad
  by_contra hlater
  obtain ⟨further, hfound, hinside⟩ :=
    hcounted.maximal.inside (hlegal.symm.trans hcounted.legal) (Nat.not_le.mp hlater)
      hmaximal.not_insideRun
  exact hfront.not_isBad hfound hinside hfoundBad

/-- Behind a stretch that is cut into tokens the scanner stops with what the text
is refused for. -/
theorem Stops.refusedFor {position : Nat} {chars : List Char} {fault : Fault}
    (hstops : Stops position chars fault) (hfront : Tiling 0 front tokens)
    (hlength : front.length = position) (houtside : ¬InsideRun front chars) :
    RefusedFor (front ++ chars) fault := by
  induction hstops generalizing front tokens with
  | illegal hillegal =>
      subst hlength
      exact refusedFor_illegal hfront hillegal
  | interrupted _ hmembers _ hillegal =>
      subst hlength
      exact refusedFor_interrupted hfront houtside hmembers hillegal
  | badRun hnonempty hmembers hends hlegal hbad =>
      subst hlength
      exact refusedFor_badRun hfront houtside hnonempty hmembers hends hlegal hbad
  | @separator position char rest fault hseparator _ ih =>
      have hother := ne_runMember_of_separator hseparator
      have hmore :=
        hfront.append (.separator hseparator (.nil _)) (not_insideRun_cons hother)
      rw [List.append_cons]
      exact ih hmore (by simp [hlength]) (not_insideRun_of_class hother)
  | @symbol position char kind rest fault hsymbol _ ih =>
      have hother := ne_runMember_of_symbol hsymbol
      have hmore := hfront.append (.symbol hsymbol (.nil _)) (not_insideRun_cons hother)
      rw [List.append_cons]
      exact ih hmore (by simp [hlength]) (not_insideRun_of_class hother)
  | @run position kind run rest token fault hnonempty hmembers hends htoken _ ih =>
      have hlone := Tiling.run hnonempty hmembers (ends_nil kind) htoken (.nil _)
      rw [List.append_nil] at hlone
      subst hlength
      have hmore := hfront.append (by rwa [Nat.zero_add])
        fun hinside => houtside (hinside.further rest)
      rw [← List.append_assoc]
      exact ih hmore List.length_append (not_insideRun_of_ends hnonempty hmembers hends)

theorem refusedFor_of_scan {chars : List Char} {fault : Fault}
    (hscan : scan chars = .error fault) : RefusedFor chars fault :=
  (stops_of_scan hscan).refusedFor (.nil 0) rfl (not_insideRun_nil chars)

/-- A text is scanned if and only if it has no illegal character and none of its
runs is bad. -/
theorem scan_ok_iff {chars : List Char} :
    (∃ tokens, scan chars = .ok tokens) ↔
      HasNoBadRun chars ∧ illegalPart chars = [] := by
  constructor
  · rintro ⟨tokens, hscan⟩
    have htiling := scan_eq_ok_iff.mp hscan
    have hlegal := legalPart_append htiling.isLegal []
    have hnone := illegalPart_append htiling.isLegal []
    rw [List.append_nil] at hlegal hnone
    refine ⟨fun kind before run behind hcounted => ?_, hnone⟩
    exact htiling.not_isBad
      ((List.append_nil _).symm.trans (hlegal.symm.trans hcounted.legal))
      hcounted.maximal
  · rintro ⟨hgood, hnone⟩
    cases hscan : scan chars with
    | ok tokens => exact ⟨tokens, rfl⟩
    | error fault =>
        cases refusedFor_of_scan hscan with
        | badRun hleftmost => exact absurd hgood hleftmost.not_hasNoBadRun
        | illegal _ hrest =>
            rw [hnone] at hrest
            cases hrest

/-- A text is refused for one fault only. -/
theorem RefusedFor.unique {chars : List Char} {fault other : Fault}
    (hrefused : RefusedFor chars fault) (hother : RefusedFor chars other) :
    fault = other := by
  cases hrefused with
  | badRun hleftmost =>
      cases hother with
      | badRun hfound =>
          obtain ⟨rfl, rfl, rfl⟩ := hleftmost.unique hfound
          rfl
      | illegal hgood => exact absurd hgood hleftmost.not_hasNoBadRun
  | illegal hgood hrest =>
      cases hother with
      | badRun hfound => exact absurd hgood hfound.not_hasNoBadRun
      | illegal _ hfound =>
          rw [hrest] at hfound
          cases hfound
          rfl

theorem scan_eq_error_iff {chars : List Char} {fault : Fault} :
    scan chars = .error fault ↔ RefusedFor chars fault := by
  refine ⟨refusedFor_of_scan, fun hrefused => ?_⟩
  cases hscan : scan chars with
  | error found => rw [(refusedFor_of_scan hscan).unique hrefused]
  | ok tokens =>
      obtain ⟨hgood, hnone⟩ := scan_ok_iff.mp ⟨tokens, hscan⟩
      cases hrefused with
      | badRun hleftmost => exact absurd hgood hleftmost.not_hasNoBadRun
      | illegal _ hrest =>
          rw [hnone] at hrest
          cases hrest

/-! ## Reports -/

/-- The kind of error that a bad run is. -/
def RunKind.errorKind : RunKind → ErrorKind
  | .numeral => .malformedNumber
  | .word => .unknownIdentifier

theorem RunKind.complaint_reports (kind : RunKind) (position : Int) (run : List Char) :
    (kind.complaint position run).Reports kind.errorKind (some position) none := by
  cases kind <;> exact ⟨rfl, rfl, rfl⟩

theorem unexpectedCharacter_reports (position : Int) (char : Char) :
    (Fault.located position (.unexpectedCharacter char)).Reports .lexical
      (some position) none :=
  ⟨rfl, rfl, rfl⟩

/-- Points and digits are quoted as they are. -/
theorem quotedChar_of_numeralChar {quote char : Char}
    (hquote : isNumeralChar quote = false) (hnumeral : isNumeralChar char = true) :
    quotedChar quote char = [char] := by
  have hother (mark : Char) (hmark : isNumeralChar mark = false) : char ≠ mark := by
    rintro rfl
    rw [hnumeral] at hmark
    cases hmark
  have hbounds := @RunKind.holds_bounds .numeral char hnumeral
  have hprintable : isPrintable char = true := by
    rw [isPrintable, if_pos (by omega), decide_eq_true_eq]
    omega
  have hplain : ¬(char = quote ∨ char = '\\') :=
    not_or.mpr ⟨hother quote hquote, hother '\\' (by decide)⟩
  rw [quotedChar, if_neg hplain, if_neg (hother '\n' (by decide)),
    if_neg (hother '\r' (by decide)), if_neg (hother '\t' (by decide)),
    if_pos hprintable]

theorem quoted_of_numeral {run : List Char}
    (hmembers : ∀ char ∈ run, isNumeralChar char = true) :
    quoted (String.ofList run) =
      String.ofList (quoteFor run :: run ++ [quoteFor run]) := by
  have hquote : isNumeralChar (quoteFor run) = false := by
    unfold quoteFor
    split <;> rfl
  have hplain : run.flatMap (quotedChar (quoteFor run)) = run := by
    rw [List.flatMap_congr fun char hmem =>
      quotedChar_of_numeralChar hquote (hmembers char hmem)]
    exact List.flatMap_singleton' run
  rw [quoted, String.toList_ofList, quotedChars, hplain]

/-- The message repeats the whole run. -/
theorem run_isInfix_message {kind : RunKind} {run : List Char}
    (hmembers : ∀ char ∈ run, kind.holds char = true) (position : Int) :
    run <:+: (kind.complaint position run).cause.message.toList := by
  cases kind with
  | numeral =>
      change run <:+: ("malformed number " ++ quoted (String.ofList run)).toList
      rw [quoted_of_numeral hmembers, String.toList_append,
        @String.toList_ofList (_ ++ _)]
      have hquoted : run <:+: quoteFor run :: run ++ [quoteFor run] :=
        (List.suffix_cons _ run).isInfix.trans (List.prefix_append _ _).isInfix
      exact hquoted.trans (List.suffix_append _ _).isInfix
  | word =>
      change run <:+: ("unknown identifier: " ++ String.ofList run).toList
      rw [String.toList_append, @String.toList_ofList run]
      exact (List.suffix_append _ _).isInfix

/-- The leftmost bad run wins, whatever else is wrong with the text: its fault has
the kind that belongs to the run and the position of its first character, and repeats
it.  If no run is bad the first illegal character is reported, and a text without
both is scanned. -/
theorem tokenize_reports_leftmost (text : String) :
    (∀ kind before run behind, IsLeftmostBad text.toList kind before run behind →
        let fault := kind.complaint before.length run
        tokenize text = .error fault ∧
          fault.Reports kind.errorKind (some (before.length : Int)) none ∧
          run <:+: fault.report.message.toList) ∧
      (∀ kind before run behind, IsCounted text.toList kind before run behind →
        kind.IsBad run →
          ∃ other front found rest, IsLeftmostBad text.toList other front found rest) ∧
      (HasNoBadRun text.toList → ∀ char rest, illegalPart text.toList = char :: rest →
        let place : Nat := (legalPart text.toList).length
        let fault : Fault := .located place (.unexpectedCharacter char)
        tokenize text = .error fault ∧
          fault.Reports .lexical (some (place : Int)) none) ∧
      (HasNoBadRun text.toList → illegalPart text.toList = [] →
        ∃ tokens, tokenize text = .ok tokens) := by
  refine ⟨fun kind before run behind hleftmost => ?_,
    fun kind before run behind hcounted hbad => ?_,
    fun hgood char rest hrest => ⟨scan_eq_error_iff.mpr (.illegal hgood hrest),
      unexpectedCharacter_reports _ char⟩,
    fun hgood hnone => scan_ok_iff.mpr ⟨hgood, hnone⟩⟩
  · exact ⟨scan_eq_error_iff.mpr (.badRun hleftmost), kind.complaint_reports _ run,
      run_isInfix_message hleftmost.counted.maximal.members _⟩
  · cases hscan : scan text.toList with
    | ok tokens =>
        obtain ⟨hgood, -⟩ := scan_ok_iff.mp ⟨tokens, hscan⟩
        exact absurd hbad (hgood _ _ _ _ hcounted)
    | error fault =>
        cases refusedFor_of_scan hscan with
        | badRun hleftmost => exact ⟨_, _, _, _, hleftmost⟩
        | illegal hgood => exact absurd hbad (hgood _ _ _ _ hcounted)

/-- The word in front of the dollar sign is spared, and the numeral is what counts. -/
theorem doubled_point_is_reported :
    let chars := "pi 1..2 foo$".toList
    IsCounted chars .numeral "pi ".toList "1..2".toList " foo".toList ∧
      RunKind.numeral.IsBad "1..2".toList ∧
      ∃ kind before run behind, IsLeftmostBad chars kind before run behind ∧
        tokenize "pi 1..2 foo$" = .error (kind.complaint before.length run) := by
  intro chars
  have hmaximal : IsMaximal .numeral "pi ".toList "1..2".toList " foo".toList := by
    refine ⟨by decide, List.all_eq_true.mp rfl, ?_, ?_⟩
    all_goals
      intro char hmem
      cases hmem
      rfl
  have hcounted : IsCounted chars .numeral "pi ".toList "1..2".toList " foo".toList :=
    ⟨by decide, hmaximal, by decide⟩
  have hbad : RunKind.numeral.IsBad "1..2".toList := .inr (by decide)
  obtain ⟨hleftmost, hexists, -⟩ := tokenize_reports_leftmost "pi 1..2 foo$"
  obtain ⟨kind, before, run, behind, hfound⟩ := hexists _ _ _ _ hcounted hbad
  exact ⟨hcounted, hbad, kind, before, run, behind, hfound,
    (hleftmost _ _ _ _ hfound).1⟩

end InfixCalc
