import InfixCalc.Proofs.Relocation
import InfixCalc.Proofs.Tiling

/-!
# Gaps between tokens

Commas and white space do nothing but keep runs apart.  Put anywhere but inside a run,
they leave the tokens of a text as they are and only move them.  As positions decide
nothing, the text is read as before, and a fault moves with the token it is about.
-/

namespace InfixCalc

/-- The latter text is the former one with a gap put in outside its runs. -/
def InsertsGap (former latter : List Char) : Prop :=
  ∃ front gap behind, former = front ++ behind ∧ latter = front ++ (gap ++ behind) ∧
    (∀ char ∈ gap, isSeparator char = true) ∧ ¬InsideRun front behind

/-! ## Moved tokens -/

theorem RunKind.token_moved {kind : RunKind} {run : List Char} {position : Int}
    {token : Token} (htoken : kind.token run position = .ok token) (place : Int → Int) :
    kind.token run (place position) = .ok (token.moved place) := by
  cases kind with
  | numeral =>
      obtain ⟨value, hvalue, rfl⟩ := numeralToken_eq_ok htoken
      simp only [RunKind.token, numeralToken, hvalue]
      rfl
  | word =>
      rcases wordToken_eq_ok htoken with ⟨fn, hfn, rfl⟩ | ⟨value, hvalue, rfl⟩
      · simp only [RunKind.token, wordToken, hfn]
        rfl
      · cases hfn : Fn.ofName? (String.ofList run) with
        | none =>
            simp only [RunKind.token, wordToken, hfn, hvalue]
            rfl
        | some fn =>
            simp only [RunKind.token, wordToken, hfn] at htoken
            cases htoken

/-- A stretch of text that begins elsewhere has its tokens elsewhere. -/
theorem Tiling.shift {position : Nat} {chars : List Char} {tokens : List Token}
    (htiling : Tiling position chars tokens) (distance : Nat) :
    Tiling (position + distance) chars (tokens.map (Token.moved (· + distance))) := by
  induction htiling with
  | nil position => exact .nil _
  | separator hseparator _ ih =>
      rw [Nat.add_right_comm] at ih
      exact .separator hseparator ih
  | symbol hsymbol _ ih =>
      rw [Nat.add_right_comm] at ih
      exact .symbol hsymbol ih
  | run hnonempty hmembers hends htoken _ ih =>
      rw [Nat.add_right_comm] at ih
      exact .run hnonempty hmembers hends (RunKind.token_moved htoken (· + distance)) ih

/-! ## Gaps -/

/-- A gap has no tokens of its own. -/
theorem Tiling.gap {gap : List Char} (hgap : ∀ char ∈ gap, isSeparator char = true)
    {position : Nat} {rest : List Char} {tokens : List Token}
    (hrest : Tiling (position + gap.length) rest tokens) :
    Tiling position (gap ++ rest) tokens := by
  induction gap generalizing position with
  | nil => exact hrest
  | cons char gap ih =>
      obtain ⟨hchar, hothers⟩ := List.forall_mem_cons.mp hgap
      rw [add_length_cons] at hrest
      exact .separator (classify_eq_separator_iff.mpr hchar) (ih hothers hrest)

theorem not_insideRun_gap {front gap behind : List Char}
    (houtside : ¬InsideRun front behind)
    (hgap : ∀ char ∈ gap, isSeparator char = true) :
    ¬InsideRun front (gap ++ behind) := by
  cases gap with
  | nil => exact houtside
  | cons first gap =>
      have hseparator := classify_eq_separator_iff.mpr (hgap first List.mem_cons_self)
      exact not_insideRun_cons (ne_runMember_of_separator hseparator)

/-- Behind the gap everything is moved by its length. -/
theorem Tiling.insertsGap {former latter : List Char} {tokens : List Token}
    (htiling : Tiling 0 former tokens) (hinserts : InsertsGap former latter) :
    ∃ place, Tiling 0 latter (tokens.map (Token.moved place)) := by
  obtain ⟨front, gap, behind, hformer, rfl, hgap, houtside⟩ := hinserts
  obtain ⟨firsts, seconds, rfl, hfront, hbehind⟩ := htiling.split hformer houtside
  let place : Int → Int := fun position =>
    if position < front.length then position else position + gap.length
  have hfirsts : firsts.map (Token.moved place) = firsts := by
    refine (List.map_congr_left fun token hmem => ?_).trans (List.map_id firsts)
    have hearlier := hfront.position_lt token hmem
    rw [Nat.zero_add] at hearlier
    simp only [Token.moved, place, if_pos hearlier, id_eq]
  have hseconds : seconds.map (Token.moved place) =
      seconds.map (Token.moved (· + gap.length)) := by
    refine List.map_congr_left fun token hmem => ?_
    have hlater := hbehind.le_position token hmem
    rw [Nat.zero_add] at hlater
    simp only [Token.moved, place, if_neg (Int.not_lt.mpr hlater)]
  refine ⟨place, ?_⟩
  rw [List.map_append, hfirsts, hseconds]
  exact hfront.append (.gap hgap (hbehind.shift gap.length))
    (not_insideRun_gap houtside hgap)

theorem Tiling.insertsGaps {former latter : List Char} {tokens : List Token}
    (htiling : Tiling 0 former tokens)
    (hinserts : Relation.ReflTransGen InsertsGap former latter) :
    ∃ place, Tiling 0 latter (tokens.map (Token.moved place)) := by
  induction hinserts with
  | refl =>
      refine ⟨id, ?_⟩
      rwa [show Token.moved id = id from rfl, List.map_id]
  | tail _ hlast ih =>
      obtain ⟨place, hplaced⟩ := ih
      obtain ⟨further, hfurther⟩ := hplaced.insertsGap hlast
      rw [List.map_map] at hfurther
      exact ⟨further ∘ place, hfurther⟩

/-- Gaps put in outside the runs of a text, one after the other, leave its tokens the
same but for their positions.  The reader then answers as it did, and if that is a fault
at a token, the fault is now at the new place of that token. -/
theorem readText_of_insertsGaps {text spaced : String} {tokens : List Token}
    (htokens : tokenize text = .ok tokens)
    (hspaced : Relation.ReflTransGen InsertsGap text.toList spaced.toList) :
    ∃ place : Int → Int, tokenize spaced = .ok (tokens.map (Token.moved place)) ∧
      ∀ mode,
        readText mode spaced = (readText mode text).mapError (Failure.moved place) ∧
          ∀ cause position,
            readText mode text = .error (.fault (.located position cause)) →
              ∃ token ∈ tokens, token.position = position := by
  have htiling := scan_eq_ok_iff.mp htokens
  obtain ⟨place, hplaced⟩ := htiling.insertsGaps hspaced
  have hmoved : tokenize spaced = .ok (tokens.map (Token.moved place)) :=
    scan_eq_ok_iff.mpr hplaced
  refine ⟨place, hmoved, fun mode => ?_⟩
  simp only [readText, htokens, hmoved]
  exact ⟨result_moved place mode htiling.isWellFormed, fun cause position hresult =>
    exists_token_of_located htiling.isWellFormed hresult⟩

theorem fault_behind_gaps :
    let tokens : List Token :=
      [⟨.function, "min", 0, none⟩, ⟨.openParen, "(", 3, none⟩,
        ⟨.number, "1", 4, some 1⟩, ⟨.closeParen, ")", 5, none⟩]
    tokenize "min(1)" = .ok tokens ∧
      Relation.ReflTransGen InsertsGap "min(1)".toList ",\tmin( 1)".toList ∧
      ∃ place : Int → Int,
        tokenize ",\tmin( 1)" = .ok (tokens.map (Token.moved place)) ∧
          readText .building ",\tmin( 1)" =
            .error (.fault (.located (place 0) (.wrongArgumentCount .min 1))) := by
  intro tokens
  have htokens : tokenize "min(1)" = .ok tokens := by decide +kernel
  have hfront : InsertsGap "min(1)".toList ",\tmin(1)".toList :=
    ⟨[], [',', '\t'], "min(1)".toList, rfl, rfl, List.all_eq_true.mp rfl,
      not_insideRun_nil _⟩
  have hinside : InsertsGap ",\tmin(1)".toList ",\tmin( 1)".toList := by
    refine ⟨",\tmin(".toList, [' '], "1)".toList, rfl, rfl, List.all_eq_true.mp rfl, ?_⟩
    rintro ⟨kind, ⟨char, hmem, hholds⟩, -⟩
    cases hmem
    cases kind <;> exact absurd hholds (by decide)
  have hspaced := (Relation.ReflTransGen.single hfront).tail hinside
  obtain ⟨place, hplaced, hread⟩ := readText_of_insertsGaps htokens hspaced
  refine ⟨htokens, hspaced, place, hplaced, ?_⟩
  have hbefore : readText .building "min(1)" =
      .error (.fault (.located 0 (.wrongArgumentCount .min 1))) := by
    simp only [readText, htokens]
    rfl
  rw [(hread .building).1, hbefore]
  rfl

end InfixCalc
