import InfixCalc.Proofs.Tiling

/-!
# The places of tokens

The tokens of a text stand side by side in it, each on the stretch of text that it
repeats.  A number, a constant or a function takes up a whole run, and nothing but
commas and white space is left between them.
-/

namespace InfixCalc

/-- A run to which neither of its neighbours could be added. -/
structure IsMaximal (kind : RunKind) (before run behind : List Char) : Prop where
  nonempty : run ≠ []
  members : ∀ char ∈ run, kind.holds char = true
  starts : ∀ char ∈ before.getLast?, kind.holds char = false
  ends : ∀ char ∈ behind.head?, kind.holds char = false

/-- Kind and value of the token are those of a lexeme between these neighbours. -/
def Token.Fits (token : Token) (before lexeme behind : List Char) : Prop :=
  match token.kind with
  | .number =>
    IsMaximal .numeral before lexeme behind ∧
      ∃ value, numeralValue? lexeme = some value ∧ token.value = some value
  | .constant =>
    IsMaximal .word before lexeme behind ∧
      ∃ value, constantValue? (String.ofList lexeme) = some value ∧
        token.value = some value
  | .function =>
    IsMaximal .word before lexeme behind ∧ (Fn.ofName? (String.ofList lexeme)).isSome ∧
      token.value = none
  | kind => (∃ char, lexeme = [char] ∧ symbolKind? char = some kind) ∧
      token.value = none

/-- The text has the lexeme of the token at its position. -/
def Token.StandsIn (token : Token) (chars : List Char) : Prop :=
  ∃ before behind, chars = before ++ (token.text.toList ++ behind) ∧
    token.position = before.length ∧ token.Fits before token.text.toList behind

/-- The token takes up the character at this place. -/
def Token.Covers (token : Token) (index : Nat) : Prop :=
  token.position ≤ index ∧ index < token.position + token.text.length

/-! ## Lexemes -/

theorem fits_of_run {kind : RunKind} {before run behind : List Char} {position : Int}
    {token : Token} (htoken : kind.token run position = .ok token)
    (hmaximal : IsMaximal kind before run behind) : token.Fits before run behind := by
  cases kind with
  | numeral =>
      obtain ⟨value, hvalue, rfl⟩ := numeralToken_eq_ok htoken
      exact ⟨hmaximal, value, hvalue, rfl⟩
  | word =>
      rcases wordToken_eq_ok htoken with ⟨fn, hfn, rfl⟩ | ⟨value, hvalue, rfl⟩
      · exact ⟨hmaximal, Option.isSome_of_mem hfn, rfl⟩
      · exact ⟨hmaximal, value, hvalue, rfl⟩

/-- A symbol stands for a parenthesis or an operator. -/
theorem fits_of_symbol {char : Char} {kind : Kind}
    (hsymbol : symbolKind? char = some kind) (before behind : List Char)
    (position : Int) :
    Token.Fits ⟨kind, String.ofList [char], position, none⟩ before [char] behind := by
  rcases symbolKind?_eq_some hsymbol with ⟨-, rfl⟩ | ⟨-, rfl⟩ | ⟨op, -, rfl⟩
  all_goals exact ⟨⟨char, rfl, hsymbol⟩, rfl⟩

/-! ## Places -/

theorem not_insideRun_of_class {front behind : List Char} {char : Char}
    (hother : ∀ kind, classify char ≠ .runMember kind) :
    ¬InsideRun (front ++ [char]) behind := by
  rintro ⟨kind, ⟨last, hlast, hholds⟩, -⟩
  rw [List.getLast?_concat] at hlast
  cases hlast
  exact hother kind (classify_eq_runMember_iff.mpr hholds)

theorem not_insideRun_of_ends {front run behind : List Char} {kind : RunKind}
    (hnonempty : run ≠ []) (hmembers : ∀ char ∈ run, classify char = .runMember kind)
    (hends : Ends kind behind) : ¬InsideRun (front ++ run) behind := by
  rintro ⟨other, ⟨last, hlast, hholds⟩, char, hmem, hgoes⟩
  rw [List.getLast?_append_of_ne_nil _ hnonempty] at hlast
  have hclass := hmembers last (List.mem_of_getLast? hlast)
  rw [classify_eq_runMember_iff.mpr hholds] at hclass
  cases hclass
  exact hends char hmem (classify_eq_runMember_iff.mpr hgoes)

theorem isMaximal_of_run {kind : RunKind} {front run rest : List Char}
    (hnonempty : run ≠ []) (hmembers : ∀ char ∈ run, classify char = .runMember kind)
    (hends : Ends kind rest) (houtside : ¬InsideRun front (run ++ rest)) :
    IsMaximal kind front run rest where
  nonempty := hnonempty
  members char hmem := classify_eq_runMember_iff.mp (hmembers char hmem)
  starts last hlast := by
    obtain ⟨first, others, rfl⟩ := List.exists_cons_of_ne_nil hnonempty
    have hfirst := classify_eq_runMember_iff.mp (hmembers first List.mem_cons_self)
    exact Bool.eq_false_iff.mpr fun hholds =>
      houtside ⟨kind, ⟨last, hlast, hholds⟩, first, rfl, hfirst⟩
  ends first hfirst :=
    Bool.eq_false_iff.mpr fun hholds =>
      hends first hfirst (classify_eq_runMember_iff.mpr hholds)

/-- Each token of a stretch of text stands in it, whatever is in front of the stretch,
as long as no run begins there. -/
theorem Tiling.standsIn {position : Nat} {chars : List Char} {tokens : List Token}
    (htiling : Tiling position chars tokens) {front : List Char}
    (hfront : front.length = position) (houtside : ¬InsideRun front chars) :
    ∀ token ∈ tokens, token.StandsIn (front ++ chars) := by
  induction htiling generalizing front with
  | nil => simp
  | @separator position char rest tokens hseparator _ ih =>
      have hother := ne_runMember_of_separator hseparator
      rw [List.append_cons]
      exact ih (by simp [hfront]) (not_insideRun_of_class hother)
  | @symbol position char kind rest tokens hsymbol hrest ih =>
      have hother := ne_runMember_of_symbol hsymbol
      intro token hmem
      rcases List.mem_cons.mp hmem with rfl | hmem
      · refine ⟨front, rest, by simp, by simp [hfront], ?_⟩
        rw [String.toList_ofList]
        exact fits_of_symbol (classify_eq_symbol_iff.mp hsymbol) front rest position
      · rw [List.append_cons]
        exact ih (by simp [hfront]) (not_insideRun_of_class hother) token hmem
  | @run position kind run rest token tokens hnonempty hmembers hends htoken hrest ih =>
      have hmaximal := isMaximal_of_run hnonempty hmembers hends houtside
      intro found hmem
      rcases List.mem_cons.mp hmem with rfl | hmem
      · obtain ⟨htext, hposition⟩ := RunKind.token_eq_ok htoken
        refine ⟨front, rest, ?_, by rw [hposition, hfront], ?_⟩
        · rw [htext, String.toList_ofList]
        · rw [htext, String.toList_ofList]
          exact fits_of_run htoken hmaximal
      · rw [← List.append_assoc]
        exact ih (by simp [hfront]) (not_insideRun_of_ends hnonempty hmembers hends)
          found hmem

/-! ## Order -/

/-- A lexeme that stands side by side with what follows it. -/
structure LeadsOn (token : Token) (position : Nat) (lexeme : List Char) : Prop where
  position : token.position = position
  length : token.text.length = lexeme.length
  nonempty : lexeme ≠ []
  visible : ∀ char ∈ lexeme, isSeparator char = false

theorem leadsOn_symbol {char : Char} {kind : Kind}
    (hsymbol : classify char = .symbol kind) (position : Nat) :
    LeadsOn ⟨kind, String.ofList [char], position, none⟩ position [char] := by
  refine ⟨rfl, String.length_ofList, List.cons_ne_nil _ _, fun other hmem => ?_⟩
  rw [List.mem_singleton.mp hmem, Bool.eq_false_iff]
  intro hseparator
  rw [classify_eq_separator_iff.mpr hseparator] at hsymbol
  cases hsymbol

theorem leadsOn_run {kind : RunKind} {run : List Char} {position : Nat} {token : Token}
    (hnonempty : run ≠ []) (hmembers : ∀ char ∈ run, classify char = .runMember kind)
    (htoken : kind.token run position = .ok token) : LeadsOn token position run := by
  obtain ⟨htext, hposition⟩ := RunKind.token_eq_ok htoken
  refine ⟨hposition, by rw [htext, String.length_ofList], hnonempty,
    fun char hmem => ?_⟩
  exact isSeparator_of_holds (classify_eq_runMember_iff.mp (hmembers char hmem))

/-- The former token ends before the latter one begins. -/
def Token.Precedes (former latter : Token) : Prop :=
  former.position < latter.position ∧
    former.position + former.text.length ≤ latter.position

theorem pairwise_cons_of_leadsOn {token : Token} {tokens : List Token} {position : Nat}
    {lexeme rest : List Char} (hleads : LeadsOn token position lexeme)
    (hrest : Tiling (position + lexeme.length) rest tokens)
    (hpairwise : tokens.Pairwise Token.Precedes) :
    (token :: tokens).Pairwise Token.Precedes := by
  refine List.pairwise_cons.mpr ⟨fun latter hmem => ?_, hpairwise⟩
  have hlater := hrest.le_position latter hmem
  have hlength := List.length_pos_of_ne_nil hleads.nonempty
  rw [Token.Precedes, hleads.position, hleads.length]
  omega

theorem Tiling.pairwise {position : Nat} {chars : List Char} {tokens : List Token}
    (htiling : Tiling position chars tokens) : tokens.Pairwise Token.Precedes := by
  induction htiling with
  | nil => exact .nil
  | separator _ _ ih => exact ih
  | symbol hsymbol hrest ih =>
      exact pairwise_cons_of_leadsOn (leadsOn_symbol hsymbol _) hrest ih
  | run hnonempty hmembers _ htoken hrest ih =>
      exact pairwise_cons_of_leadsOn (leadsOn_run hnonempty hmembers htoken) hrest ih

/-! ## Covered characters -/

/-- The tokens cover what is no separator. -/
def CoversVisible (position : Nat) (chars : List Char) (tokens : List Token) : Prop :=
  ∀ index char, chars[index]? = some char →
    ((∃ token ∈ tokens, token.Covers (position + index)) ↔ isSeparator char = false)

theorem coversVisible_cons_of_leadsOn {token : Token} {tokens : List Token}
    {position : Nat} {lexeme rest : List Char} (hleads : LeadsOn token position lexeme)
    (hcovers : CoversVisible (position + lexeme.length) rest tokens) :
    CoversVisible position (lexeme ++ rest) (token :: tokens) := by
  intro index char hchar
  by_cases hinside : index < lexeme.length
  · rw [List.getElem?_append_left hinside] at hchar
    have hvisible := hleads.visible char (List.mem_of_getElem? hchar)
    refine iff_of_true ⟨token, List.mem_cons_self, ?_⟩ hvisible
    rw [Token.Covers, hleads.position, hleads.length]
    omega
  · have hbehind : lexeme.length ≤ index := Nat.not_lt.mp hinside
    rw [List.getElem?_append_right hbehind] at hchar
    rw [← hcovers (index - lexeme.length) char hchar]
    have hplace : position + lexeme.length + (index - lexeme.length) =
      position + index := by omega
    have hleft : ¬token.Covers (position + index) := by
      rw [Token.Covers, hleads.position, hleads.length]
      omega
    rw [hplace, List.exists_mem_cons_iff, or_iff_right hleft]

theorem Tiling.coversVisible {position : Nat} {chars : List Char} {tokens : List Token}
    (htiling : Tiling position chars tokens) : CoversVisible position chars tokens := by
  induction htiling with
  | nil =>
      intro index char hchar
      cases hchar
  | @separator position char rest tokens hseparator hrest ih =>
      intro index other hother
      cases index with
      | zero =>
          cases hother
          rw [classify_eq_separator_iff.mp hseparator]
          refine iff_of_false ?_ (by decide)
          rintro ⟨token, hmem, hcovers, -⟩
          have hlater := hrest.le_position token hmem
          omega
      | succ index =>
          rw [← ih index other hother, Nat.add_assoc, Nat.add_comm 1]
  | symbol hsymbol _ ih =>
      exact coversVisible_cons_of_leadsOn (leadsOn_symbol hsymbol _) ih
  | run hnonempty hmembers _ htoken _ ih =>
      exact coversVisible_cons_of_leadsOn (leadsOn_run hnonempty hmembers htoken) ih

/-- The tokens of a text follow one another without overlapping.  Each repeats the
stretch of text at its position, a run that no neighbour belongs to or a single
symbol, and has the value of that stretch.  The characters in none of them are the
commas and white space. -/
theorem tokenize_tiles_text {text : String} {tokens : List Token}
    (htokens : tokenize text = .ok tokens) :
    tokens.Pairwise Token.Precedes ∧ (∀ token ∈ tokens, token.StandsIn text.toList) ∧
      ∀ index char, text.toList[index]? = some char →
        ((¬∃ token ∈ tokens, token.Covers index) ↔ isSeparator char = true) := by
  have htiling := scan_eq_ok_iff.mp htokens
  refine ⟨htiling.pairwise, htiling.standsIn rfl (not_insideRun_nil _), ?_⟩
  intro index char hchar
  have hcovers := htiling.coversVisible index char hchar
  rw [Nat.zero_add] at hcovers
  rw [hcovers, Bool.not_eq_false]

theorem words_and_numbers_touch :
    let tokens : List Token :=
      [⟨.number, "2.", 1, some 2⟩, ⟨.constant, "pi", 3, some 3.14159265359⟩,
        ⟨.number, ".5", 5, some 0.5⟩, ⟨.function, "max", 7, none⟩,
        ⟨.openParen, "(", 11, none⟩]
    tokenize ",2.pi.5max\t(" = .ok tokens ∧ tokens.Pairwise Token.Precedes ∧
      ∀ token ∈ tokens, token.StandsIn ",2.pi.5max\t(".toList := by
  intro tokens
  have htokens : tokenize ",2.pi.5max\t(" = .ok tokens := by decide +kernel
  have htiles := tokenize_tiles_text htokens
  exact ⟨htokens, htiles.1, htiles.2.1⟩

end InfixCalc
