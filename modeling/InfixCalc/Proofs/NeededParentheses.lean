import InfixCalc.Proofs.Chains
import InfixCalc.Proofs.Composition
import InfixCalc.Proofs.RoundTrip

/-!
# Parentheses that are needed

An operand that does not reach the level of its place stands in parentheses, and the
grammar cannot do with fewer pairs than that.  Whatever pairs are left out of a
text, a chain of operands remains and is read.  But it has too few pairs to be read
as the same expression.
-/

namespace InfixCalc

/-! ## Pairs the grammar needs -/

/-- What a token adds to the plain pairs.  The pair of a call is taken off by its
function. -/
def Kind.plainPairs : Kind → Int
  | .openParen => 1
  | .function => -1
  | _ => 0

def Role.plainPairs : Role → Int
  | .opening => 1
  | .function _ => -1
  | _ => 0

theorem Token.plainPairs_of_role {token : Token} {role : Role}
    (hrole : token.role? = some role) : token.kind.plainPairs = role.plainPairs :=
  known_of_role hrole (fun _ => rfl) (fun _ => rfl) (fun _ => rfl)
    (fun _ _ => rfl) rfl rfl

/-- The pairs of parentheses that are not those of a call. -/
def plainPairs (tokens : List Token) : Int :=
  (tokens.map fun token => token.kind.plainPairs).sum

@[simp]
theorem plainPairs_nil : plainPairs [] = 0 := rfl

@[simp]
theorem plainPairs_cons (token : Token) (tokens : List Token) :
    plainPairs (token :: tokens) = token.kind.plainPairs + plainPairs tokens :=
  List.sum_cons

@[simp]
theorem plainPairs_append (tokens others : List Token) :
    plainPairs (tokens ++ others) = plainPairs tokens + plainPairs others := by
  rw [plainPairs, List.map_append, List.sum_append, plainPairs, plainPairs]

/-- The plain pairs in the text of the expression. -/
def Expr.pairs : Expr → Nat
  | .leaf _ => 0
  | .apply (.function _) left right => left.pairs + right.pairs
  | .apply (.operator op) left right =>
    left.pairs + (op.breaksLeft left).toNat +
      (right.pairs + (op.breaksRight right).toNat)

/-- The plain pairs where the operators outside them have to reach the level. -/
def Expr.pairsAt (level : Nat) (expr : Expr) : Nat :=
  expr.pairs + if expr.level < level then 1 else 0

theorem Expr.pairs_le_pairsAt (level : Nat) (expr : Expr) :
    expr.pairs ≤ expr.pairsAt level :=
  Nat.le_add_right _ _

theorem Expr.pairsAt_le_succ (level : Nat) (expr : Expr) :
    expr.pairsAt level ≤ expr.pairs + 1 := by
  unfold Expr.pairsAt
  split <;> omega

theorem Expr.pairsAt_mono {level above : Nat} (hlevel : level ≤ above) (expr : Expr) :
    expr.pairsAt level ≤ expr.pairsAt above := by
  unfold Expr.pairsAt
  split <;> split <;> omega

theorem Expr.pairsAt_of_le {level : Nat} {expr : Expr} (hlevel : level ≤ expr.level) :
    expr.pairsAt level = expr.pairs := by
  rw [Expr.pairsAt, if_neg (Nat.not_lt.mpr hlevel), Nat.add_zero]

theorem Expr.level_of_operator {expr : Expr} {op : Op}
    (hoperator : expr.operator? = some op) : expr.level = op.level := by
  rw [Expr.level, hoperator, Option.map_some, Option.getD_some]

/-- A left operand is put in parentheses only if it does not reach the level
of its place. -/
theorem Op.pairs_left_le (op : Op) (left : Expr) :
    left.pairs + (op.breaksLeft left).toNat ≤ left.pairsAt op.leftLevel := by
  cases hbreaks : op.breaksLeft left with
  | false => exact left.pairs_le_pairsAt _
  | true =>
      obtain ⟨inner, hinner, hfirst⟩ := Option.any_eq_true _ _ |>.mp hbreaks
      have hlevel : left.level < op.leftLevel := by
        rw [Expr.level_of_operator hinner]
        refine Nat.not_le.mp fun hle => ?_
        rw [(Op.leftFirst_iff inner op).mpr hle] at hfirst
        cases hfirst
      rw [Expr.pairsAt, if_pos hlevel]
      exact Nat.le_refl _

theorem Op.pairs_right_le (op : Op) (right : Expr) :
    right.pairs + (op.breaksRight right).toNat ≤ right.pairsAt op.rightLevel := by
  cases hbreaks : op.breaksRight right with
  | false => exact right.pairs_le_pairsAt _
  | true =>
      obtain ⟨inner, hinner, hfirst⟩ := Option.any_eq_true _ _ |>.mp hbreaks
      have hlevel : right.level < op.rightLevel := by
        rw [Expr.level_of_operator hinner]
        refine Nat.not_le.mp fun hle => ?_
        rw [(Op.leftFirst_eq_false_iff op inner).mpr hle] at hfirst
        cases hfirst
      rw [Expr.pairsAt, if_pos hlevel]
      exact Nat.le_refl _

/-- The grammar derives no expression from fewer plain pairs than its text has. -/
theorem Derives.pairsAt_le {phrase : Phrase} {tokens : List Token}
    (hderives : Derives false phrase tokens) {level : Nat} {expr : Expr}
    (hcomplete : phrase = .complete level expr) :
    expr.pairsAt level ≤ plainPairs tokens := by
  -- Only a pair raises the level of an expression, and it raises it as far
  -- as one pair can.
  induction hderives generalizing level expr with
  | operand hrole =>
      cases hcomplete
      obtain ⟨found, rfl⟩ := Token.exists_leaf hrole
      rw [Expr.pairsAt_of_le (by rfl)]
      simp [Token.plainPairs_of_role hrole, Role.plainPairs, Expr.pairs]
  | @group _ _ _ inner hopening hclosing _ ih =>
      cases hcomplete
      have hinside := ih rfl
      have hneeded := inner.pairsAt_le_succ operandLevel
      rw [Expr.pairsAt_of_le inner.exprLevel_le_level] at hinside
      simp only [plainPairs_cons, plainPairs_append, Token.plainPairs_of_role hopening,
        Token.plainPairs_of_role hclosing, Role.plainPairs, plainPairs_nil]
      omega
  | @call _ _ _ _ _ _ first second hfunction hopening hclosing _ _ ihfirst ihsecond =>
      cases hcomplete
      have hfirst := ihfirst rfl
      have hsecond := ihsecond rfl
      rw [Expr.pairsAt_of_le first.exprLevel_le_level] at hfirst
      rw [Expr.pairsAt_of_le second.exprLevel_le_level] at hsecond
      rw [Expr.pairsAt_of_le (by rfl), Expr.pairs]
      simp only [plainPairs_cons, plainPairs_append, Token.plainPairs_of_role hfunction,
        Token.plainPairs_of_role hopening, Token.plainPairs_of_role hclosing,
        Role.plainPairs, plainPairs_nil]
      omega
  | @lower level expr _ _ ih =>
      cases hcomplete
      have habove := ih rfl
      have hlevel := expr.pairsAt_mono (Nat.le_add_right level 1)
      omega
  | @operation op _ _ _ left right hoperator _ _ ihleft ihright =>
      cases hcomplete
      have hleft := ihleft rfl
      have hright := ihright rfl
      have hneededLeft := op.pairs_left_le left
      have hneededRight := op.pairs_right_le right
      rw [Expr.pairsAt_of_le (by rfl), Expr.pairs]
      simp only [plainPairs_cons, plainPairs_append, Token.plainPairs_of_role hoperator,
        Role.plainPairs]
      omega
  | lackingCall hlenient => exact absurd hlenient Bool.false_ne_true
  | lastOperator | furtherOperator => cases hcomplete

/-! ## Pairs left out of a text -/

def keptUnless (dropped : Bool) (char : Char) (rest : List Char) : List Char :=
  if dropped then rest else char :: rest

/-- The text without the pairs of parentheses whose opening one is at a place that
`drops` names.  For each pair that is still open `dropped` says whether it is left out,
the innermost first. -/
def withoutPairs (drops : Nat → Bool) : Nat → List Bool → List Char → List Char
  | _, _, [] => []
  | position, dropped, char :: rest =>
    if char = '(' then
      keptUnless (drops position) char
        (withoutPairs drops (position + 1) (drops position :: dropped) rest)
    else if char = ')' then
      keptUnless (dropped.headD false) char
        (withoutPairs drops (position + 1) dropped.tail rest)
    else char :: withoutPairs drops (position + 1) dropped rest

/-- How many pairs are left out. -/
def droppedPairs (drops : Nat → Bool) : Nat → List Char → Nat
  | _, [] => 0
  | position, char :: rest =>
    (if char = '(' then (drops position).toNat else 0) +
      droppedPairs drops (position + 1) rest

variable {drops : Nat → Bool} {position : Nat}
    {chars kept others keptOthers : List Char}

theorem droppedPairs_append (drops : Nat → Bool) (position : Nat)
    (chars others : List Char) :
    droppedPairs drops position (chars ++ others) =
      droppedPairs drops position chars +
        droppedPairs drops (position + chars.length) others := by
  induction chars generalizing position with
  | nil => simp [droppedPairs]
  | cons char rest ih =>
      rw [List.cons_append, droppedPairs, droppedPairs, ih, add_length_cons,
        ← Nat.add_assoc]

theorem droppedPairs_pos {index : Nat} (hopening : chars[index]? = some '(')
    (hdrops : drops (position + index) = true) :
    0 < droppedPairs drops position chars := by
  induction chars generalizing position index with
  | nil => simp at hopening
  | cons char rest ih =>
      rw [droppedPairs]
      cases index with
      | zero =>
          obtain rfl : char = '(' := by simpa using hopening
          rw [Nat.add_zero] at hdrops
          simp [hdrops]
      | succ index =>
          have hrest := ih (by simpa using hopening)
            (show drops (position + 1 + index) = true by rwa [Nat.add_right_comm])
          omega

/-- A character other than a parenthesis. -/
def IsUnpaired (char : Char) : Prop :=
  char ≠ '(' ∧ char ≠ ')'

theorem droppedPairs_of_isUnpaired (hunpaired : ∀ char ∈ chars, IsUnpaired char) :
    droppedPairs drops position chars = 0 := by
  induction chars generalizing position with
  | nil => rfl
  | cons char rest ih =>
      obtain ⟨hchar, hrest⟩ := List.forall_mem_cons.mp hunpaired
      rw [droppedPairs, if_neg hchar.1, ih hrest]

/-- Whatever stands around the stretch, this is what remains of it. -/
def LeavesBehind (drops : Nat → Bool) (position : Nat) (chars kept : List Char) :
    Prop :=
  ∀ dropped rest, withoutPairs drops position dropped (chars ++ rest) =
    kept ++ withoutPairs drops (position + chars.length) dropped rest

theorem LeavesBehind.append (hchars : LeavesBehind drops position chars kept)
    (hothers : LeavesBehind drops (position + chars.length) others keptOthers) :
    LeavesBehind drops position (chars ++ others) (kept ++ keptOthers) := by
  intro dropped rest
  rw [List.append_assoc, hchars, hothers, List.append_assoc, List.length_append,
    Nat.add_assoc]

theorem leavesBehind_of_isUnpaired (hunpaired : ∀ char ∈ chars, IsUnpaired char) :
    LeavesBehind drops position chars chars := by
  induction chars generalizing position with
  | nil => exact fun dropped rest => rfl
  | cons char others ih =>
      obtain ⟨⟨hopening, hclosing⟩, hothers⟩ := List.forall_mem_cons.mp hunpaired
      intro dropped rest
      rw [List.cons_append, withoutPairs, if_neg hopening, if_neg hclosing, ih hothers,
        add_length_cons, List.cons_append]

theorem LeavesBehind.enclosed (hinside : LeavesBehind drops (position + 1) chars kept) :
    LeavesBehind drops position ('(' :: (chars ++ [')']))
      (if drops position then kept else '(' :: (kept ++ [')'])) := by
  intro dropped rest
  have hclosing : ¬ (')' = '(') := by decide
  rw [List.cons_append, List.append_assoc, withoutPairs, if_pos rfl, hinside,
    List.singleton_append, withoutPairs, if_neg hclosing, if_pos rfl]
  have hlength : position + 1 + chars.length + 1 =
      position + ('(' :: (chars ++ [')'])).length := by
    simp only [List.length_cons, List.length_append, List.length_nil]
    omega
  cases drops position <;> simp [keptUnless, hlength]

/-- With an opening parenthesis goes the closing one of its pair. -/
example : withoutPairs (fun index => index == 3) 0 [] "(2-(3-(4)))^5".toList =
    "(2-3-(4))^5".toList := by
  decide

/-! ## Texts that stay readable -/

/-- No parenthesis that stands directly behind the name of a function is dropped. -/
def CallsSpared (drops : Nat → Bool) (position : Nat) (chars : List Char) : Prop :=
  ∀ (before after : List Char) (fn : Fn),
    chars = before ++ (fn.name.toList ++ '(' :: after) →
      drops (position + (before.length + fn.name.toList.length)) = false

theorem CallsSpared.of_front (hspared : CallsSpared drops position (chars ++ others)) :
    CallsSpared drops position chars := by
  rintro before after fn rfl
  exact hspared before (after ++ others) fn (by simp)

theorem CallsSpared.of_behind (hspared : CallsSpared drops position (chars ++ others)) :
    CallsSpared drops (position + chars.length) others := by
  rintro before after fn rfl
  have hwhole := hspared (chars ++ before) after fn (by simp)
  rwa [List.length_append, Nat.add_assoc, ← Nat.add_assoc] at hwhole

theorem CallsSpared.inside {first : Char}
    (hspared : CallsSpared drops position (first :: (chars ++ others))) :
    CallsSpared drops (position + 1) chars := by
  have hbehind : CallsSpared drops position ([first] ++ (chars ++ others)) := hspared
  exact hbehind.of_behind.of_front

/-- Whatever plain pairs are left out of the stretch, a chain of operands remains, with
the other pairs. -/
def StaysReadable (drops : Nat → Bool) (chars : List Char) (pairs : Nat) : Prop :=
  ∀ position, CallsSpared drops position chars →
    ∃ kept, LeavesBehind drops position chars kept ∧ CutsInto kept fun tokens =>
      Forms .chain tokens ∧
        plainPairs tokens + droppedPairs drops position chars = pairs

variable {lefts rights : List Char} {pairs leftPairs rightPairs : Nat}

theorem isUnpaired_of_runMember {kind : RunKind}
    (hmembers : ∀ char ∈ chars, classify char = .runMember kind) :
    ∀ char ∈ chars, IsUnpaired char := by
  intro char hmem
  have hmember := hmembers char hmem
  constructor
  · rintro rfl
    exact ne_runMember_of_symbol classify_opening kind hmember
  · rintro rfl
    exact ne_runMember_of_symbol classify_closing kind hmember

theorem isUnpaired_of_isSeparator (hgap : ∀ char ∈ chars, isSeparator char = true) :
    ∀ char ∈ chars, IsUnpaired char := by
  intro char hmem
  have hseparator := hgap char hmem
  constructor <;> rintro rfl <;> cases hseparator

theorem isUnpaired_symbol (op : Op) : IsUnpaired op.symbol := by
  cases op <;> exact ⟨by decide, by decide⟩

theorem staysReadable_run {kind : RunKind} (hnonempty : chars ≠ [])
    (hmembers : ∀ char ∈ chars, classify char = .runMember kind)
    (htoken : ∀ position : Nat, ∃ token expr, kind.token chars position = .ok token ∧
      token.role? = some (.operand expr)) : StaysReadable drops chars 0 := by
  intro position hspared
  have hunpaired := isUnpaired_of_runMember hmembers
  refine ⟨chars, leavesBehind_of_isUnpaired hunpaired, fun place => ?_⟩
  obtain ⟨token, expr, hread, hrole⟩ := htoken place
  have htiling := Tiling.run hnonempty hmembers (nofun : Ends kind []) hread (.nil _)
  rw [List.append_nil] at htiling
  refine ⟨[token], htiling, .single (.leaf hrole), ?_⟩
  rw [droppedPairs_of_isUnpaired hunpaired, plainPairs_cons,
    Token.plainPairs_of_role hrole]
  rfl

theorem droppedPairs_enclosed (drops : Nat → Bool) (position : Nat)
    (chars : List Char) :
    droppedPairs drops position ('(' :: (chars ++ [')'])) =
      (drops position).toNat + droppedPairs drops (position + 1) chars := by
  simp [droppedPairs, droppedPairs_append]

theorem StaysReadable.enclosed (hstays : StaysReadable drops chars pairs) :
    StaysReadable drops ('(' :: (chars ++ [')'])) (pairs + 1) := by
  intro position hspared
  obtain ⟨kept, hleaves, hcuts⟩ := hstays (position + 1) hspared.inside
  refine ⟨_, hleaves.enclosed, ?_⟩
  rw [droppedPairs_enclosed]
  cases drops position with
  | true =>
      rw [if_pos rfl]
      refine hcuts.imp fun tokens ⟨hforms, hcount⟩ => ⟨hforms, ?_⟩
      simp only [Bool.toNat_true]
      omega
  | false =>
      rw [if_neg Bool.false_ne_true]
      refine hcuts.parenthesized fun hopening hclosing ⟨hforms, hcount⟩ =>
        ⟨.single (.group hopening hclosing hforms), ?_⟩
      simp only [plainPairs_cons, plainPairs_append, plainPairs_nil, Bool.toNat_false,
        Token.plainPairs_of_role hopening, Token.plainPairs_of_role hclosing,
        Role.plainPairs]
      omega

theorem StaysReadable.operation (op : Op) {gap : List Char}
    (hgap : ∀ char ∈ gap, isSeparator char = true)
    (hleft : StaysReadable drops lefts leftPairs)
    (hright : StaysReadable drops rights rightPairs) :
    StaysReadable drops (lefts ++ (gap ++ op.symbol :: (gap ++ rights)))
      (leftPairs + rightPairs) := by
  have hmiddle (front behind : List Char) :
    front ++ (gap ++ op.symbol :: (gap ++ behind)) =
      front ++ ((gap ++ op.symbol :: gap) ++ behind) := by simp
  have hunpaired : ∀ char ∈ gap ++ op.symbol :: gap, IsUnpaired char := by
    have hblanks := isUnpaired_of_isSeparator hgap
    exact List.forall_mem_append.mpr
      ⟨hblanks, List.forall_mem_cons.mpr ⟨isUnpaired_symbol op, hblanks⟩⟩
  intro position hspared
  rw [hmiddle] at hspared ⊢
  obtain ⟨keptLeft, hleavesLeft, hcutsLeft⟩ := hleft position hspared.of_front
  obtain ⟨keptRight, hleavesRight, hcutsRight⟩ := hright _ hspared.of_behind.of_behind
  refine ⟨_,
    hleavesLeft.append ((leavesBehind_of_isUnpaired hunpaired).append hleavesRight), ?_⟩
  rw [← hmiddle, droppedPairs_append, droppedPairs_append,
    droppedPairs_of_isUnpaired hunpaired]
  refine CutsInto.operation op hgap hcutsLeft hcutsRight ?_
  intro operator firsts seconds hoperator ⟨hfirsts, hcountLeft⟩ ⟨hseconds, hcountRight⟩
  refine ⟨hfirsts.append hoperator hseconds, ?_⟩
  simp only [plainPairs_cons, plainPairs_append, Token.plainPairs_of_role hoperator,
    Role.plainPairs]
  omega

theorem StaysReadable.call (fn : Fn) (hleft : StaysReadable drops lefts leftPairs)
    (hright : StaysReadable drops rights rightPairs) :
    StaysReadable drops
      (fn.name.toList ++ '(' :: (lefts ++ ',' :: ' ' :: (rights ++ [')'])))
        (leftPairs + rightPairs) := by
  have harguments (front behind : List Char) :
      '(' :: (front ++ ',' :: ' ' :: (behind ++ [')'])) =
        '(' :: ((front ++ ([',', ' '] ++ behind)) ++ [')']) := by simp
  have hname := isUnpaired_of_runMember (classify_fn fn)
  have hgap : ∀ char ∈ [',', ' '], IsUnpaired char := by simp [IsUnpaired]
  intro position hspared
  have hcall : drops (position + fn.name.toList.length) = false := by
    simpa using hspared [] _ fn (List.nil_append _).symm
  rw [harguments] at hspared ⊢
  have hinside := hspared.of_behind.inside
  obtain ⟨keptLeft, hleavesLeft, hcutsLeft⟩ := hleft _ hinside.of_front
  obtain ⟨keptRight, hleavesRight, hcutsRight⟩ := hright _ hinside.of_behind.of_behind
  have hleaves :=
    hleavesLeft.append ((leavesBehind_of_isUnpaired hgap).append hleavesRight)
  refine ⟨_, (leavesBehind_of_isUnpaired hname).append hleaves.enclosed, ?_⟩
  rw [hcall, if_neg Bool.false_ne_true, ← harguments, droppedPairs_append,
    droppedPairs_enclosed, droppedPairs_append, droppedPairs_append,
    droppedPairs_of_isUnpaired hname, droppedPairs_of_isUnpaired hgap, hcall]
  refine CutsInto.call fn hcutsLeft hcutsRight ?_
  intro function opening closing firsts seconds hfunction hopening hclosing
    ⟨hfirsts, hcountLeft⟩ ⟨hseconds, hcountRight⟩
  refine ⟨.single (.call hfunction hopening hclosing hfirsts hseconds), ?_⟩
  simp only [plainPairs_cons, plainPairs_append, plainPairs_nil, Bool.toNat_false,
    Token.plainPairs_of_role hfunction, Token.plainPairs_of_role hopening,
    Token.plainPairs_of_role hclosing, Role.plainPairs]
  omega

/-! ## The text of an expression -/

variable {print : Float → String}

theorem staysReadable_leaf (hprint : IsPositional print) (drops : Nat → Bool)
    {leaf : Leaf} (hexpressible : leaf.IsExpressible) :
    ∃ text, leaf.textWith print = .ok text ∧ StaysReadable drops text.toList 0 := by
  cases leaf with
  | number value =>
      cases value with
      | none => exact hexpressible.elim
      | some known =>
          obtain ⟨hfinite, hclear⟩ := hexpressible
          refine ⟨_, rfl, staysReadable_run (hprint.toList_ne_nil hfinite hclear)
            (fun _ hmem => classify_print hprint hfinite hclear hmem)
            fun position => ?_⟩
          exact ⟨_, .number (some known),
            token_print hprint hfinite hclear position, rfl⟩
  | constant name value =>
      obtain ⟨rfl, rfl⟩ := hexpressible
      refine ⟨_, rfl, ?_⟩
      have hmembers : ∀ char ∈ "pi".toList, classify char = .runMember .word :=
        classify_of_all (by decide)
      exact staysReadable_run (by decide) hmembers fun position =>
        ⟨⟨.constant, "pi", position, some 3.14159265359⟩,
          .constant "pi" (some 3.14159265359), rfl, rfl⟩
  | marker position depth call => exact hexpressible.elim
  | absent => exact hexpressible.elim

theorem StaysReadable.enclosedIf {text : String}
    (hstays : StaysReadable drops text.toList pairs) (needed : Bool) :
    StaysReadable drops (enclosedIf needed text).toList (pairs + needed.toNat) := by
  cases needed with
  | false => exact hstays
  | true =>
      have htext : (InfixCalc.enclosedIf true text).toList =
          '(' :: (text.toList ++ [')']) :=
        toList_parenthesized text
      rw [htext]
      exact hstays.enclosed

theorem Op.exists_gap (op : Op) (left right : String) :
    ∃ gap : List Char, (∀ char ∈ gap, isSeparator char = true) ∧
      (op.between left right).toList =
        left.toList ++ (gap ++ op.symbol :: (gap ++ right.toList)) := by
  by_cases hpower : op = .pow
  · subst hpower
    exact ⟨[], nofun, toList_between_pow left right⟩
  · have hblank : isSeparator ' ' = true := classify_eq_separator_iff.mp rfl
    exact ⟨[' '], List.forall_mem_singleton.mpr hblank,
      toList_between hpower left right⟩

theorem staysReadable_joinedText (head : Head) {left right : Expr}
    {leftText rightText : String}
    (hleft : StaysReadable drops leftText.toList left.pairs)
    (hright : StaysReadable drops rightText.toList right.pairs) :
    StaysReadable drops (joinedText head left right leftText rightText).toList
      (Expr.apply head left right).pairs := by
  cases head with
  | operator op =>
      obtain ⟨gap, hgap, htext⟩ :=
        op.exists_gap (enclosedIf (op.breaksLeft left) leftText)
          (enclosedIf (op.breaksRight right) rightText)
      rw [joinedText, htext]
      exact .operation op hgap (hleft.enclosedIf _) (hright.enclosedIf _)
  | function fn =>
      rw [joinedText, toList_call]
      exact .call fn hleft hright

theorem exists_staysReadable (hprint : IsPositional print) (drops : Nat → Bool)
    {expr : Expr} (hexpressible : expr.IsExpressible) :
    ∃ text, expr.textWith print = .ok text ∧
      StaysReadable drops text.toList expr.pairs := by
  induction expr with
  | leaf found =>
      rw [Expr.textWith_leaf]
      exact staysReadable_leaf hprint drops hexpressible
  | apply head left right ihleft ihright =>
      obtain ⟨leftText, hleftText, hleft⟩ := ihleft hexpressible.1
      obtain ⟨rightText, hrightText, hright⟩ := ihright hexpressible.2
      refine ⟨_, ?_, staysReadable_joinedText head hleft hright⟩
      rw [Expr.textWith_apply, hleftText, hrightText]
      rfl

/-- An opening parenthesis that does not stand directly behind the name of a
function. -/
def IsPlainOpening (chars : List Char) (index : Nat) : Prop :=
  chars[index]? = some '(' ∧ ∀ fn : Fn, ¬fn.name.toList <:+ chars.take index

theorem callsSpared_of_isPlainOpening
    (hplain : ∀ index, drops index = true → IsPlainOpening chars index) :
    CallsSpared drops 0 chars := by
  rintro before after fn rfl
  refine Bool.eq_false_iff.mpr fun hdropped => ?_
  refine (hplain _ hdropped).2 fn ⟨before, ?_⟩
  rw [Nat.zero_add, ← List.append_assoc, ← List.length_append, List.take_left']
  rfl

/-- Every pair of parentheses in the text of an expression is needed, but for those of
calls, whichever positional printer prints the numbers.  Without any of them, one or
several, the text is still read, and is read as a different expression. -/
theorem text_needs_plain_pairs (hprint : IsPositional print) {expr : Expr}
    (hexpressible : expr.IsExpressible) :
    ∃ text, expr.textWith print = .ok text ∧ ∀ chosen : Finset Nat, chosen.Nonempty →
      (∀ index ∈ chosen, IsPlainOpening text.toList index) →
        ∃ other,
          readText .building (String.ofList (withoutPairs
            (fun index => decide (index ∈ chosen)) 0 [] text.toList)) = .ok other ∧
          other ≠ expr := by
  obtain ⟨text, htext, -⟩ := exists_text hprint hexpressible
  refine ⟨text, htext, fun chosen hnonempty hplain => ?_⟩
  let drops : Nat → Bool := fun index => decide (index ∈ chosen)
  obtain ⟨found, hfound, hstays⟩ := exists_staysReadable hprint drops hexpressible
  obtain rfl : text = found := Except.ok.inj (htext.symm.trans hfound)
  have hspared : CallsSpared drops 0 text.toList :=
    callsSpared_of_isPlainOpening fun index hdropped =>
      hplain index (of_decide_eq_true hdropped)
  obtain ⟨kept, hleaves, hcuts⟩ := hstays 0 hspared
  obtain ⟨tokens, htiling, hforms, hcount⟩ := hcuts 0
  obtain ⟨index, hindex⟩ := hnonempty
  have hdropped : 0 < droppedPairs drops 0 text.toList :=
    droppedPairs_pos (hplain index hindex).1 (by simpa [drops] using hindex)
  obtain ⟨other, hreads⟩ := (exists_reads_iff_forms tokens).mpr hforms
  have hkept : withoutPairs drops 0 [] text.toList = kept := by
    simpa [withoutPairs] using hleaves [] []
  refine ⟨other, ?_, ?_⟩
  · refine readText_of_tiling ?_ (Derives.lenient_of_strict hreads)
    rwa [String.toList_ofList, hkept]
  · rintro rfl
    have hneeded := hreads.pairsAt_le rfl
    have hpairs := other.pairs_le_pairsAt exprLevel
    omega

/-- Without both its pairs the product is read as a difference. -/
theorem product_needs_its_pairs :
    let pi : Expr := .constant "pi" (some 3.14159265359)
    let expr : Expr := .apply (.operator .mul) (.apply (.operator .add) pi pi)
      (.apply (.operator .sub) pi (.apply (.function .max) pi pi))
    let text := "(pi + pi) * (pi - max(pi, pi))"
    let chosen : Finset Nat := {0, 12}
    expr.IsExpressible ∧ expr.text = .ok text ∧
      (∀ index ∈ chosen, IsPlainOpening text.toList index) ∧
      ∃ other, readText .building "pi + pi * pi - max(pi, pi)" = .ok other ∧
        other ≠ expr := by
  intro pi expr text chosen
  have hpi : pi.IsExpressible := ⟨rfl, rfl⟩
  have hexpr : expr.IsExpressible := ⟨⟨hpi, hpi⟩, hpi, hpi, hpi⟩
  have htext : expr.text = .ok text := by decide +kernel
  have hplain : ∀ index ∈ chosen, IsPlainOpening text.toList index := by
    intro index hmem
    rcases Finset.mem_insert.mp hmem with rfl | hmem
    · exact ⟨by decide, fun fn => by cases fn <;> decide⟩
    · obtain rfl := Finset.mem_singleton.mp hmem
      exact ⟨by decide, fun fn => by cases fn <;> decide⟩
  have hwithout : String.ofList
      (withoutPairs (fun index => decide (index ∈ chosen)) 0 [] text.toList) =
        "pi + pi * pi - max(pi, pi)" := by decide +kernel
  obtain ⟨found, hfound, hneeded⟩ :=
    text_needs_plain_pairs isPositional_literalText hexpr
  obtain rfl : text = found := Except.ok.inj (htext.symm.trans hfound)
  have hother := hneeded chosen ⟨0, Finset.mem_insert_self _ _⟩ hplain
  rw [hwithout] at hother
  exact ⟨hexpr, htext, hplain, hother⟩

end InfixCalc
