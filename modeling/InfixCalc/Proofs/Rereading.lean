import InfixCalc.Proofs.Conservation
import InfixCalc.Proofs.DoubleBits
import InfixCalc.Proofs.Refusal

/-!
# Writing again what was read

No text holds a sign or a word for what is not finite inside its numerals, so the only
leaf that can be read and not be written again is infinity, which a numeral beyond the
largest double stands for.  An expression without it is read from its own text; one with
it has a text that nothing reads.
-/

namespace InfixCalc

open InfixCalc.Rounding

/-- The value of a numeral that is too large for a double. -/
def infinity : Float :=
  ofMagnitude infiniteMagnitude

/-- A number has no sign and may be infinite, and the constant is the one of the
scanner. -/
def Leaf.IsReadable : Leaf → Prop
  | .number (some value) =>
    isSigned value = false ∧ magnitudeOf value ≤ infiniteMagnitude
  | .constant name value => name = "pi" ∧ value = some 3.14159265359
  | _ => False

/-! ## Leaves of a text -/

theorem bounds_of_numeralValue? {numeral : List Char} {value : Float}
    (hvalue : numeralValue? numeral = some value) :
    isSigned value = false ∧ magnitudeOf value ≤ infiniteMagnitude := by
  simp only [numeralValue?] at hvalue
  split at hvalue
  · cases hvalue
  · cases hvalue
    refine ⟨isSigned_ofMagnitude (nearestMagnitude_le _ _), ?_⟩
    rw [magnitudeOf_ofMagnitude (nearestMagnitude_le _ _)]
    exact nearestMagnitude_le _ _

example : numeralValue? ('1' :: List.replicate 309 '0') = some infinity := by
  decide +kernel

theorem constantValue?_eq_some {name : String} {value : Float}
    (hvalue : constantValue? name = some value) :
    name = "pi" ∧ value = 3.14159265359 := by
  unfold constantValue? at hvalue
  split at hvalue
  · cases hvalue
    exact ⟨by assumption, rfl⟩
  · cases hvalue

theorem isReadable_of_run {kind : RunKind} {run : List Char} {position : Int}
    {token : Token} (htoken : kind.token run position = .ok token) :
    ∀ leaf ∈ token.leaf?, leaf.IsReadable := by
  intro leaf hleaf
  cases kind with
  | numeral =>
      obtain ⟨value, hvalue, rfl⟩ := numeralToken_eq_ok htoken
      cases hleaf
      exact bounds_of_numeralValue? hvalue
  | word =>
      rcases wordToken_eq_ok htoken with ⟨fn, hfn, rfl⟩ | ⟨value, hvalue, rfl⟩
      · rw [Token.leaf?, Token.role?, hfn] at hleaf
        cases hleaf
      · cases hleaf
        obtain ⟨hname, rfl⟩ := constantValue?_eq_some hvalue
        exact ⟨hname, rfl⟩

theorem leaf?_symbol {char : Char} {kind : Kind}
    (hsymbol : classify char = .symbol kind) (position : Int) :
    Token.leaf? ⟨kind, String.ofList [char], position, none⟩ = none := by
  rcases symbolKind?_eq_some (classify_eq_symbol_iff.mp hsymbol) with
    ⟨-, rfl⟩ | ⟨-, rfl⟩ | ⟨op, rfl, rfl⟩
  · rfl
  · rfl
  · rw [Token.leaf_of_role (Op.role?_symbol op position)]
    rfl

theorem Tiling.isReadable {position : Nat} {chars : List Char} {tokens : List Token}
    (htiling : Tiling position chars tokens) :
    ∀ token ∈ tokens, ∀ leaf ∈ token.leaf?, leaf.IsReadable := by
  induction htiling with
  | nil => simp
  | separator _ _ ih => exact ih
  | symbol hsymbol _ ih =>
      refine List.forall_mem_cons.mpr ⟨fun leaf hleaf => ?_, ih⟩
      rw [leaf?_symbol hsymbol] at hleaf
      cases hleaf
  | run _ _ _ htoken _ ih =>
      exact List.forall_mem_cons.mpr ⟨isReadable_of_run htoken, ih⟩

/-- An expression that was read from a text is made of the tokens of the text. -/
theorem readsLeniently_of_readText {text : String} {tree : Expr}
    (hread : readText .building text = .ok tree) :
    ∃ tokens, tokenize text = .ok tokens ∧ ReadsLeniently tokens tree := by
  unfold readText at hread
  cases htokens : tokenize text with
  | error fault =>
      rw [htokens] at hread
      cases hread
  | ok tokens =>
      rw [htokens] at hread
      have hformed := (scan_eq_ok_iff.mp htokens).isWellFormed
      exact ⟨tokens, rfl, readsLeniently_of_readTokens_ok hformed hread⟩

theorem isReadable_of_readText {text : String} {tree : Expr}
    (hread : readText .building text = .ok tree) :
    ∀ leaf ∈ tree.leaves, leaf.IsReadable := by
  obtain ⟨tokens, htokens, hreads⟩ := readsLeniently_of_readText hread
  intro leaf hmem
  rw [hreads.leaves_eq] at hmem
  obtain ⟨token, htoken, hleaf⟩ := List.mem_filterMap.mp hmem
  exact (scan_eq_ok_iff.mp htokens).isReadable token htoken leaf hleaf

/-! ## What can be written again -/

theorem Leaf.IsReadable.isLiteral {leaf : Leaf} (hreadable : leaf.IsReadable) :
    leaf.IsLiteral := by
  match leaf, hreadable with
  | .number (some value), _ => exact rfl
  | .constant name value, hconstant => exact hconstant

/-- Infinity is all that stands between what is read and what can be written. -/
theorem Leaf.IsReadable.isExpressible {leaf : Leaf} (hreadable : leaf.IsReadable)
    (hfinite : leaf ≠ .number (some infinity)) : leaf.IsExpressible := by
  match leaf, hreadable with
  | .constant name value, hconstant => exact hconstant
  | .number (some value), ⟨hsign, hnumber⟩ =>
      refine ⟨lt_of_le_of_ne hnumber fun hinfinite => hfinite ?_, hsign⟩
      rw [infinity, ← hinfinite, ofMagnitude_magnitudeOf hsign]

theorem isExpressible_of_leaves {expr : Expr}
    (hleaves : ∀ leaf ∈ expr.leaves, leaf.IsExpressible) : expr.IsExpressible := by
  induction expr with
  | leaf found => exact hleaves found (List.mem_singleton_self found)
  | apply head left right ihleft ihright =>
      obtain ⟨hlefts, hrights⟩ := List.forall_mem_append.mp hleaves
      exact ⟨ihleft hlefts, ihright hrights⟩

theorem not_isExpressible_infinity : ¬(Leaf.number (some infinity)).IsExpressible := by
  rintro ⟨hfinite, -⟩
  rw [infinity, magnitudeOf_ofMagnitude le_rfl] at hfinite
  exact absurd hfinite (Nat.lt_irrefl _)

variable {print : Float → String}

theorem readText_text_of_finite (hprint : IsPositional print) {tree : Expr}
    (hreadable : ∀ leaf ∈ tree.leaves, leaf.IsReadable)
    (hfinite : .number (some infinity) ∉ tree.leaves) {shown : String}
    (hshown : tree.textWith print = .ok shown) :
    readText .building shown = .ok tree := by
  have hexpressible : tree.IsExpressible := isExpressible_of_leaves fun leaf hmem =>
    (hreadable leaf hmem).isExpressible fun hinfinite => hfinite (hinfinite ▸ hmem)
  obtain ⟨text, htext, hwrites⟩ := exists_text hprint hexpressible
  rw [hshown] at htext
  cases htext
  exact readText_of_writes tree.exprLevel_le_level hwrites

theorem readText_fault_of_infinity {tree : Expr}
    (hinfinite : .number (some infinity) ∈ tree.leaves) {shown : String}
    (haccounts : Accounts shown.toList tree) :
    ∃ fault, readText .building shown = .error (.fault fault) :=
  readText_fault_of_surplus .building fun tokens htiling hone =>
    not_isExpressible_infinity (((haccounts 0 tokens htiling).2 hone).of_mem_leaves _
      hinfinite)

/-- An expression that was read from a text has numbers without a sign and the constant
for leaves, and operators and functions of the text for inner nodes.  It has a text of
its own, whichever positional printer prints the numbers.  Without infinity among its
leaves it is read from that text again, and written the same once more; with infinity
the text is refused. -/
theorem readText_text_of_readText (hprint : IsPositional print) {text : String}
    {tree : Expr} (hread : readText .building text = .ok tree) :
    (∀ leaf ∈ tree.leaves, leaf.IsReadable) ∧
      (∃ tokens, tokenize text = .ok tokens ∧
        ∀ head ∈ tree.heads, ∃ token ∈ tokens, token.head? = some head) ∧
      ∃ shown, tree.textWith print = .ok shown ∧
        (readText .building shown = .ok tree ↔ .number (some infinity) ∉ tree.leaves) ∧
        (.number (some infinity) ∉ tree.leaves →
          (readText .building shown).bind (Expr.textWith print) = .ok shown) ∧
        (.number (some infinity) ∈ tree.leaves →
          ∃ fault, readText .building shown = .error (.fault fault)) := by
  have hreadable := isReadable_of_readText hread
  obtain ⟨tokens, htokens, hreads⟩ := readsLeniently_of_readText hread
  obtain ⟨shown, hshown, haccounts⟩ :=
    exists_accounts hprint fun leaf hmem => (hreadable leaf hmem).isLiteral
  have hfinite (hnone : .number (some infinity) ∉ tree.leaves) :=
    readText_text_of_finite hprint hreadable hnone hshown
  have hinfinite (hmem : .number (some infinity) ∈ tree.leaves) :=
    readText_fault_of_infinity hmem haccounts
  refine ⟨hreadable, ⟨tokens, htokens, fun head hmem => ?_⟩, shown, hshown,
    ⟨fun hsame hmem => ?_, hfinite⟩, fun hnone => ?_, hinfinite⟩
  · exact List.mem_filterMap.mp (hreads.heads_perm.mem_iff.mp hmem)
  · obtain ⟨fault, hfault⟩ := hinfinite hmem
    rw [hsame] at hfault
    cases hfault
  · rw [hfinite hnone]
    exact hshown

theorem broken_off_argument_reads_again :
    let text := "min(.50 pi, 3^)"
    let tree : Expr := .apply (.function .min) (.number (some 0.5))
      (.apply (.operator .pow) (.constant "pi" (some 3.14159265359)) (.number (some 3)))
    readText .building text = .ok tree ∧ .number (some infinity) ∉ tree.leaves ∧
      ∃ shown, tree.text = .ok shown ∧ readText .building shown = .ok tree := by
  intro text tree
  have hread : readText .building text = .ok tree := by decide +kernel
  have hfinite : .number (some infinity) ∉ tree.leaves := by decide +kernel
  obtain ⟨-, -, shown, hshown, hsame, -⟩ :=
    readText_text_of_readText isPositional_literalText hread
  exact ⟨hread, hfinite, shown, hshown, hsame.mpr hfinite⟩

end InfixCalc
