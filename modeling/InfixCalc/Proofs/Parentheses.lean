import Mathlib
import InfixCalc.Token.Basic

/-!
# Rows of parentheses

The partner of a parenthesis is the next one with a balanced row between the two.  A row
is balanced if and only if each of its parentheses has its partner.  As long as the
closing ones have theirs, a stack of the opening ones that lack theirs is all there is
to know about a row, and only the innermost of them can still get one.
-/

namespace InfixCalc

/-! ## Partners -/

def Kind.isParenthesis : Kind → Bool
  | .openParen | .closeParen => true
  | _ => false

/-- Every parenthesis has its partner, and what stands between the two is balanced,
too. -/
inductive Balanced : List Token → Prop
  | nil : Balanced []
  | other {token : Token} {rest : List Token}
      (hother : token.kind.isParenthesis = false) (hrest : Balanced rest) :
      Balanced (token :: rest)
  | pair {opening closing : Token} {inside rest : List Token}
      (hopening : opening.kind = .openParen) (hinside : Balanced inside)
      (hclosing : closing.kind = .closeParen) (hrest : Balanced rest) :
      Balanced (opening :: (inside ++ closing :: rest))

/-- A closing parenthesis behind these tokens has its partner among them. -/
def HasOpening (before : List Token) : Prop :=
  ∃ front opening inside, before = front ++ opening :: inside ∧
    opening.kind = .openParen ∧ Balanced inside

/-- An opening parenthesis in front of these tokens has its partner among them. -/
def HasClosing (behind : List Token) : Prop :=
  ∃ inside closing rest, behind = inside ++ closing :: rest ∧
    closing.kind = .closeParen ∧ Balanced inside

def ClosingsMatch (tokens : List Token) : Prop :=
  ∀ before closing behind, tokens = before ++ closing :: behind →
    closing.kind = .closeParen → HasOpening before

def OpeningsMatch (tokens : List Token) : Prop :=
  ∀ before opening behind, tokens = before ++ opening :: behind →
    opening.kind = .openParen → HasClosing behind

variable {tokens : List Token}

theorem Balanced.append {others : List Token} (hfirst : Balanced tokens)
    (hsecond : Balanced others) : Balanced (tokens ++ others) := by
  induction hfirst with
  | nil => exact hsecond
  | other hother _ ih => exact .other hother ih
  | pair hopening hinside hclosing _ _ ih =>
      rw [List.cons_append, List.append_assoc, List.cons_append]
      exact .pair hopening hinside hclosing ih

/-- A token of a row stands in front of another one, is that one, or stands behind
it. -/
theorem mid_cases {inside rest before behind : List Token} {closing token : Token}
    (htokens : inside ++ closing :: rest = before ++ token :: behind) :
    (∃ further, inside = before ++ token :: further ∧
      behind = further ++ closing :: rest) ∨ (inside = before ∧ closing = token) ∨
      ∃ further, before = inside ++ closing :: further ∧
        rest = further ++ token :: behind := by
  rcases List.append_eq_append_iff.mp htokens with
    ⟨further, rfl, hlater⟩ | ⟨further, rfl, hlater⟩
  · rcases List.cons_eq_append_iff.mp hlater with ⟨rfl, hsame⟩ | ⟨others, rfl, hrest⟩
    · cases hsame
      exact .inr (.inl ⟨(List.append_nil _).symm, rfl⟩)
    · exact .inr (.inr ⟨others, rfl, hrest⟩)
  · rcases List.cons_eq_append_iff.mp hlater with ⟨rfl, hsame⟩ | ⟨others, rfl, hbehind⟩
    · cases hsame
      exact .inr (.inl ⟨List.append_nil _, rfl⟩)
    · exact .inl ⟨others, rfl, hbehind⟩

theorem HasOpening.behind {before : List Token} (hopening : HasOpening before)
    (front : List Token) : HasOpening (front ++ before) := by
  obtain ⟨further, opening, inside, rfl, hkind, hinside⟩ := hopening
  exact ⟨front ++ further, opening, inside, by rw [List.append_assoc], hkind, hinside⟩

theorem HasClosing.before {behind : List Token} (hclosing : HasClosing behind)
    (rest : List Token) : HasClosing (behind ++ rest) := by
  obtain ⟨inside, closing, further, rfl, hkind, hinside⟩ := hclosing
  refine ⟨inside, closing, further ++ rest, ?_, hkind, hinside⟩
  rw [List.append_assoc, List.cons_append]

theorem Balanced.closingsMatch (hbalanced : Balanced tokens) :
    ClosingsMatch tokens := by
  induction hbalanced with
  | nil =>
      intro before found behind htokens
      cases List.append_ne_nil_of_right_ne_nil before (List.cons_ne_nil found behind)
        htokens.symm
  | @other token rest hother _ ih =>
      intro before found behind htokens hfound
      rcases List.cons_eq_append_iff.mp htokens with ⟨rfl, hsame⟩ | ⟨others, rfl, hrest⟩
      · cases hsame
        rw [hfound] at hother
        cases hother
      · exact (ih _ _ _ hrest hfound).behind [token]
  | @pair opening closing inside rest hopening hinside _ _ ihinside ihrest =>
      intro before found behind htokens hfound
      rcases List.cons_eq_append_iff.mp htokens with
        ⟨rfl, hsame⟩ | ⟨others, rfl, hlater⟩
      · cases hsame
        rw [hopening] at hfound
        cases hfound
      · rcases mid_cases hlater with ⟨further, rfl, -⟩ | ⟨rfl, -⟩ | ⟨further, rfl, rfl⟩
        · exact (ihinside _ _ _ rfl hfound).behind [opening]
        · exact ⟨[], opening, inside, rfl, hopening, hinside⟩
        · have hmore :=
            (ihrest _ _ _ rfl hfound).behind (opening :: inside ++ [closing])
          rwa [List.append_assoc, List.singleton_append] at hmore

theorem Balanced.openingsMatch (hbalanced : Balanced tokens) :
    OpeningsMatch tokens := by
  induction hbalanced with
  | nil =>
      intro before found behind htokens
      cases List.append_ne_nil_of_right_ne_nil before (List.cons_ne_nil found behind)
        htokens.symm
  | other hother _ ih =>
      intro before found behind htokens hfound
      rcases List.cons_eq_append_iff.mp htokens with ⟨rfl, hsame⟩ | ⟨others, rfl, hrest⟩
      · cases hsame
        rw [hfound] at hother
        cases hother
      · exact ih _ _ _ hrest hfound
  | @pair opening closing inside rest _ hinside hclosing _ ihinside ihrest =>
      intro before found behind htokens hfound
      rcases List.cons_eq_append_iff.mp htokens with
        ⟨rfl, hsame⟩ | ⟨others, rfl, hlater⟩
      · cases hsame
        exact ⟨inside, closing, rest, rfl, hclosing, hinside⟩
      · rcases mid_cases hlater with
          ⟨further, rfl, rfl⟩ | ⟨rfl, rfl⟩ | ⟨further, rfl, rfl⟩
        · exact (ihinside _ _ _ rfl hfound).before (closing :: rest)
        · rw [hclosing] at hfound
          cases hfound
        · exact ihrest _ _ _ rfl hfound

/-- Nothing is open at the end of a balanced row.  Otherwise its parenthesis would be
closed by one that has its own partner still further inside. -/
theorem Balanced.not_hasOpening (hbalanced : Balanced tokens) : ¬HasOpening tokens := by
  induction hlength :
    tokens.length using Nat.strong_induction_on generalizing tokens with
  | _ length ih =>
      rintro ⟨front, opening, inside, rfl, hopening, hinside⟩
      obtain ⟨further, closing, rest, rfl, hclosing, hfurther⟩ :=
        hbalanced.openingsMatch _ _ _ rfl hopening
      have hpartner := hinside.closingsMatch _ _ _ rfl hclosing
      refine ih further.length ?_ hfurther rfl hpartner
      simp only [← hlength, List.length_append, List.length_cons]
      omega

theorem Balanced.not_hasClosing (hbalanced : Balanced tokens) : ¬HasClosing tokens := by
  rintro ⟨inside, closing, rest, rfl, hclosing, hinside⟩
  exact hinside.not_hasOpening (hbalanced.closingsMatch _ _ _ rfl hclosing)

/-! ## Open parentheses -/

/-- The parentheses that are open at the end of the tokens, the innermost first. -/
inductive Opened : List Token → List Token → Prop
  | balanced {tokens : List Token} (hbalanced : Balanced tokens) : Opened [] tokens
  | opening {openings front inside : List Token} {opening : Token}
      (houter : Opened openings front) (hkind : opening.kind = .openParen)
      (hinside : Balanced inside) :
      Opened (opening :: openings) (front ++ opening :: inside)

theorem Opened.append {openings more : List Token} (hopened : Opened openings tokens)
    (hmore : Balanced more) : Opened openings (tokens ++ more) := by
  cases hopened with
  | balanced hbalanced => exact .balanced (hbalanced.append hmore)
  | opening houter hkind hinside =>
      rw [List.append_assoc, List.cons_append]
      exact .opening houter hkind (hinside.append hmore)

theorem Opened.close {opening closing : Token} {openings : List Token}
    (hopened : Opened (opening :: openings) tokens)
    (hclosing : closing.kind = .closeParen) :
    Opened openings (tokens ++ [closing]) := by
  cases hopened with
  | opening houter hkind hinside =>
      rw [List.append_assoc, List.cons_append]
      exact houter.append (.pair hkind hinside hclosing .nil)

theorem Opened.closingsMatch {openings : List Token}
    (hopened : Opened openings tokens) : ClosingsMatch tokens := by
  induction hopened with
  | balanced hbalanced => exact hbalanced.closingsMatch
  | @opening openings front inside opening _ hkind hinside ih =>
      intro before found behind htokens hfound
      rcases mid_cases htokens with ⟨further, rfl, -⟩ | ⟨rfl, rfl⟩ | ⟨further, rfl, rfl⟩
      · exact ih _ _ _ rfl hfound
      · rw [hkind] at hfound
        cases hfound
      · have hmore :=
          (hinside.closingsMatch _ _ _ rfl hfound).behind (front ++ [opening])
        rwa [List.append_assoc, List.singleton_append] at hmore

/-- Where every closing parenthesis has its partner, only opening ones may lack
theirs. -/
theorem ClosingsMatch.exists_opened (hclosings : ClosingsMatch tokens) :
    ∃ openings, Opened openings tokens := by
  induction tokens using List.reverseRecOn with
  | nil => exact ⟨[], .balanced .nil⟩
  | append_singleton tokens token ih =>
      have hfront : ClosingsMatch tokens := fun before found behind htokens hfound =>
        hclosings before found (behind ++ [token])
          (by rw [htokens, List.append_assoc]; rfl) hfound
      obtain ⟨openings, hopened⟩ := ih hfront
      cases hkind : token.kind with
      | openParen => exact ⟨token :: openings, .opening hopened hkind .nil⟩
      | closeParen =>
          cases openings with
          | nil =>
              obtain ⟨hbalanced⟩ := hopened
              exact absurd (hclosings _ _ _ rfl hkind) hbalanced.not_hasOpening
          | cons opening openings => exact ⟨openings, hopened.close hkind⟩
      | _ => exact ⟨openings, hopened.append (.other (by rw [hkind]; rfl) .nil)⟩

theorem Opened.exists_unclosed {opening : Token} {openings : List Token}
    (hopened : Opened (opening :: openings) tokens) :
    ∃ front inside, tokens = front ++ opening :: inside ∧ opening.kind = .openParen ∧
      Balanced inside := by
  cases hopened with
  | opening _ hkind hinside => exact ⟨_, _, rfl, hkind, hinside⟩

/-- Parentheses are balanced if and only if each of them has its partner. -/
theorem balanced_iff_match :
    Balanced tokens ↔ ClosingsMatch tokens ∧ OpeningsMatch tokens := by
  refine ⟨fun hbalanced => ⟨hbalanced.closingsMatch, hbalanced.openingsMatch⟩, ?_⟩
  rintro ⟨hclosings, hopenings⟩
  obtain ⟨openings, hopened⟩ := hclosings.exists_opened
  cases openings with
  | nil =>
      obtain ⟨hbalanced⟩ := hopened
      exact hbalanced
  | cons opening openings =>
      obtain ⟨front, inside, rfl, hkind, hinside⟩ := hopened.exists_unclosed
      exact absurd (hopenings _ _ _ rfl hkind) hinside.not_hasClosing

end InfixCalc
