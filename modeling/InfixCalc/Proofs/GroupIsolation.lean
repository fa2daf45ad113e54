import Mathlib
import InfixCalc.Stacks.Reduce

/-!
# Groups are isolated

Whatever is done to the two stacks, and whether it succeeds or fails, the groups that
are open hold back ever more operands from the outside in, and never more than there
are.  No operation reaches the operands behind the innermost group, so the operands
behind any group stay the same for as long as it is open.
-/

namespace InfixCalc

/-- The number of operands that a group holds back. -/
def Pending.depth? : Pending → Option Nat
  | .token _ => none
  | .group opened => some opened.depth

/-- What the open groups hold back, the innermost first. -/
def groupDepths (pending : List Pending) : List Nat :=
  pending.filterMap Pending.depth?

/-- The operands that were finished first, from bottom to top. -/
def Operands.lowest (operands : Operands) (count : Nat) : List Expr :=
  operands.values.reverse.take count

/-- From the inside out nothing holds back more than what it lies in. -/
def Stacks.IsLayered (state : Stacks) : Prop :=
  (state.operands.values.length :: groupDepths state.pending).Pairwise (· ≥ ·)

/-- A single operation, and the stacks it leaves behind when it succeeds or fails. -/
def Stacks.MovesTo (state next : Stacks) : Prop :=
  ∃ mode move, next = (state.perform mode move).state

/-- An operation during which these entries stay at the bottom of what is pending. -/
def Stacks.MovesAbove (kept : List Pending) (state next : Stacks) : Prop :=
  state.MovesTo next ∧ kept <:+ next.pending

/-! ## Depths -/

theorem floor_eq_headD (pending : List Pending) :
    floor pending = (groupDepths pending).headD 0 := by
  induction pending with
  | nil => rfl
  | cons entry rest ih =>
      cases entry with
      | token token => exact ih
      | group group => rfl

theorem le_floor_of_mem {pending : List Pending} {depth : Nat}
    (hlayered : (groupDepths pending).Pairwise (· ≥ ·))
    (hmem : depth ∈ groupDepths pending) : depth ≤ floor pending := by
  rw [floor_eq_headD]
  cases hdepths : groupDepths pending with
  | nil => rw [hdepths] at hmem; cases hmem
  | cons first depths =>
      rw [hdepths] at hlayered hmem
      rcases List.mem_cons.mp hmem with rfl | hrest
      · exact le_rfl
      · exact List.rel_of_pairwise_cons hlayered hrest

theorem Stacks.IsLayered.floor_le {state : Stacks} (hlayered : state.IsLayered) :
    floor state.pending ≤ state.operands.values.length := by
  rw [floor_eq_headD]
  cases hdepths : groupDepths state.pending with
  | nil => exact Nat.zero_le _
  | cons first depths =>
      rw [Stacks.IsLayered, hdepths] at hlayered
      exact List.rel_of_pairwise_cons hlayered List.mem_cons_self

theorem depth_le_floor {state : Stacks} {group : Group} {below : List Pending}
    (hlayered : state.IsLayered) (hopen : .group group :: below <:+ state.pending) :
    group.depth ≤ floor state.pending := by
  have hdepths := hopen.filterMap Pending.depth?
  exact le_floor_of_mem hlayered.of_cons (hdepths.subset List.mem_cons_self)

/-! ## Operands that are kept -/

/-- The lowest operands are there afterwards, and they are the same as before. -/
structure Operands.Keeps (count : Nat) (before after : Operands) : Prop where
  reach : count ≤ after.values.length
  lowest : after.lowest count = before.lowest count

variable {count : Nat} {before after : Operands}

theorem keeps_refl (hreach : count ≤ before.values.length) :
    Operands.Keeps count before before :=
  ⟨hreach, rfl⟩

theorem Operands.Keeps.mono {fewer : Nat} (hkeeps : Operands.Keeps count before after)
    (hfewer : fewer ≤ count) : Operands.Keeps fewer before after := by
  refine ⟨hfewer.trans hkeeps.reach, ?_⟩
  have hlowest := congrArg (List.take fewer) hkeeps.lowest
  simpa only [Operands.lowest, List.take_take, Nat.min_eq_left hfewer] using hlowest

theorem Operands.Keeps.trans {last : Operands}
    (hfirst : Operands.Keeps count before after)
    (hsecond : Operands.Keeps count after last) : Operands.Keeps count before last :=
  ⟨hsecond.reach, hsecond.lowest.trans hfirst.lowest⟩

/-- What lies on top of the lowest operands does not matter. -/
theorem keeps_of_append (above others : List Expr) {below : List Expr}
    (hbefore : before.values = above ++ below)
    (hafter : after.values = others ++ below) (hreach : count ≤ below.length) :
    Operands.Keeps count before after := by
  have hbelow : count ≤ below.reverse.length := by rwa [List.length_reverse]
  constructor
  · rw [hafter, List.length_append]
    omega
  · simp only [Operands.lowest, hbefore, hafter, List.reverse_append,
      List.take_append_of_le_length hbelow]

/-! ## Reductions -/

variable {mode : Mode}

theorem replaceTop_eq_ok {head : Head}
    (hreplace : before.replaceTop mode head = .ok after) :
    ∃ right left below joined, before.values = right :: left :: below ∧
      after.values = joined :: below := by
  unfold Operands.replaceTop at hreplace
  split at hreplace
  · rename_i right left below hvalues
    refine ⟨right, left, below, ?_⟩
    cases mode with
    | building =>
        cases hreplace
        exact ⟨_, hvalues, rfl⟩
    | folding meaning =>
        dsimp only at hreplace
        split at hreplace <;> cases hreplace
        exact ⟨_, hvalues, rfl⟩
  · cases hreplace

theorem replaceTop_keeps {head : Head}
    (hreplace : before.replaceTop mode head = .ok after)
    (hreach : count + 2 ≤ before.values.length) :
    Operands.Keeps count before after := by
  obtain ⟨right, left, below, joined, hbefore, hafter⟩ := replaceTop_eq_ok hreplace
  rw [hbefore, List.length_cons, List.length_cons] at hreach
  exact keeps_of_append [right, left] [joined] hbefore hafter (by omega)

/-- A reduction reaches no operand behind the floor. -/
theorem reduceBy_keeps {token : Token} {floor : Nat}
    (hreduce : before.reduceBy mode token floor = .ok after) :
    Operands.Keeps floor before after := by
  unfold Operands.reduceBy at hreduce
  split at hreduce
  · cases hreduce
  · split at hreduce
    · exact replaceTop_keeps hreduce (by omega)
    · cases hreduce
    · cases hreduce

/-- Some of the latest entries are gone, and the operands behind the floor
are the same. -/
structure Stacks.Sinks (state next : Stacks) : Prop where
  pending : next.pending <:+ state.pending
  operands : Operands.Keeps (floor state.pending) state.operands next.operands

/-- All that is gone was inside the innermost group. -/
structure Stacks.SinksInside (state next : Stacks) :
    Prop extends Stacks.Sinks state next where
  sameFloor : floor next.pending = floor state.pending

theorem sinksInside_refl {state : Stacks}
    (hfloor : floor state.pending ≤ state.operands.values.length) :
    state.SinksInside state :=
  ⟨⟨List.suffix_rfl, keeps_refl hfloor⟩, rfl⟩

theorem sinksInside_of_pop {token : Token} {rest : List Pending}
    (hfloor : floor rest ≤ before.values.length) :
    Stacks.SinksInside ⟨before, .token token :: rest⟩ ⟨before, rest⟩ :=
  ⟨⟨List.suffix_cons _ _, keeps_refl hfloor⟩, rfl⟩

theorem reduceWhile_sinksInside (yields : Token → Except Failure Bool)
    (pending : List Pending) (hfloor : floor pending ≤ before.values.length) :
    Stacks.SinksInside ⟨before, pending⟩
      (reduceWhile mode yields pending before).state := by
  induction pending generalizing before with
  | nil => exact sinksInside_refl hfloor
  | cons entry rest ih =>
      cases entry with
      | group group => exact sinksInside_refl hfloor
      | token token =>
          have hrest : floor rest ≤ before.values.length := hfloor
          rw [reduceWhile]
          split
          · split
            · rename_i reduced hreduce
              have hkeeps := reduceBy_keeps hreduce
              have hsinks := ih hkeeps.reach
              exact ⟨⟨hsinks.pending.trans (List.suffix_cons _ _),
                hkeeps.trans hsinks.operands⟩, hsinks.sameFloor⟩
            · exact sinksInside_of_pop hrest
          · exact sinksInside_refl hfloor
          · exact sinksInside_refl hfloor

/-! ## Operations -/

variable {state next : Stacks}

theorem reduceGroup_sinksInside (mode : Mode)
    (hfloor : floor state.pending ≤ state.operands.values.length) :
    state.SinksInside (state.reduceGroup mode).state :=
  reduceWhile_sinksInside _ state.pending hfloor

theorem reduce_sinks (mode : Mode)
    (hfloor : floor state.pending ≤ state.operands.values.length) :
    state.Sinks (state.reduce mode).state := by
  obtain ⟨operands, pending⟩ := state
  match pending, hfloor with
  | [], hfloor => exact ⟨List.suffix_rfl, keeps_refl hfloor⟩
  | .group group :: rest, hfloor => exact ⟨List.suffix_cons _ _, keeps_refl hfloor⟩
  | .token token :: rest, hfloor =>
      have hrest : floor rest ≤ operands.values.length := hfloor
      simp only [Stacks.reduce]
      split
      · rename_i reduced hreduce
        exact ⟨List.suffix_cons _ _, reduceBy_keeps hreduce⟩
      · exact ⟨List.suffix_cons _ _, keeps_refl hrest⟩

theorem closePlain_state (group : Group) : (state.closePlain group).state = state := by
  unfold Stacks.closePlain
  split <;> rfl

/-- Only a call with its two arguments joins anything, and these lie above its depth. -/
theorem closeCall_sinks (mode : Mode) {group : Group}
    (hdepth : group.depth ≤ state.operands.values.length) :
    (state.closeCall mode group).state.pending <:+ state.pending ∧
      Operands.Keeps group.depth state.operands
        (state.closeCall mode group).state.operands := by
  obtain ⟨operands, pending⟩ := state
  have hsame := keeps_refl hdepth
  match pending with
  | [] => exact ⟨List.suffix_rfl, hsame⟩
  | .group other :: rest => exact ⟨List.suffix_cons _ _, hsame⟩
  | .token token :: rest =>
      simp only [Stacks.closeCall]
      cases Fn.ofName? token.text with
      | none => exact ⟨List.suffix_cons _ _, hsame⟩
      | some fn =>
          dsimp only
          split
          · rename_i hcount
            rw [Fn.arity] at hcount
            split
            · rename_i joined hjoin
              exact ⟨List.suffix_cons _ _, replaceTop_keeps hjoin (by omega)⟩
            · exact ⟨List.suffix_cons _ _, hsame⟩
          · exact ⟨List.suffix_cons _ _, hsame⟩

theorem closeGroup_sinks (mode : Mode) (position : Int)
    (hfloor : floor state.pending ≤ state.operands.values.length) :
    state.Sinks (state.closeGroup mode position).state := by
  have hsinks := reduceGroup_sinksInside mode hfloor
  unfold Stacks.closeGroup
  cases hreduce : state.reduceGroup mode with
  | failed failure left =>
      rw [hreduce] at hsinks
      exact hsinks.toSinks
  | done reduced =>
      rw [hreduce] at hsinks
      obtain ⟨operands, pending⟩ := reduced
      obtain ⟨⟨hpending, hkeeps⟩, hsame⟩ := hsinks
      simp only [Outcome.andThen]
      match pending, hpending, hsame with
      | [], hpending, _ => exact ⟨hpending, hkeeps⟩
      | .token token :: rest, hpending, _ => exact ⟨hpending, hkeeps⟩
      | .group group :: rest, hpending, hsame =>
          -- What the group holds back is the floor of the stacks before.
          have hdepth : floor state.pending = group.depth := hsame.symm
          have hrest : rest <:+ state.pending := (List.suffix_cons _ _).trans hpending
          rw [hdepth] at hkeeps
          dsimp only
          split
          · let closed : Stacks := ⟨operands, rest⟩
            have hreach : group.depth ≤ closed.operands.values.length := hkeeps.reach
            obtain ⟨hclosed, hjoined⟩ := closeCall_sinks mode hreach
            exact ⟨hclosed.trans hrest, hdepth ▸ hkeeps.trans hjoined⟩
          · rw [closePlain_state]
            exact ⟨hrest, hdepth ▸ hkeeps⟩

/-! ## Runs -/

theorem Stacks.Sinks.isLayered (hsinks : state.Sinks next)
    (hlayered : state.IsLayered) : next.IsLayered := by
  have hdepths := (hsinks.pending.filterMap Pending.depth?).sublist
  refine List.pairwise_cons.mpr ⟨fun depth hmem => ?_, hlayered.of_cons.sublist hdepths⟩
  exact (le_floor_of_mem hlayered.of_cons (hdepths.subset hmem)).trans
    hsinks.operands.reach

/-- An operation keeps the groups layered and the operands behind the innermost one
as they are. -/
theorem Stacks.MovesTo.keeps (hmoves : state.MovesTo next)
    (hlayered : state.IsLayered) :
    next.IsLayered ∧
      Operands.Keeps (floor state.pending) state.operands next.operands := by
  obtain ⟨mode, move, rfl⟩ := hmoves
  have hfloor := hlayered.floor_le
  have hbehind := (List.pairwise_cons.mp hlayered).1
  cases move with
  | value value =>
      refine ⟨List.pairwise_cons.mpr ⟨fun depth hmem => ?_, hlayered.of_cons⟩, ?_⟩
      · exact (hbehind depth hmem).trans (Nat.le_succ _)
      · exact keeps_of_append [] [value] rfl rfl hfloor
  | token token => exact ⟨hlayered, keeps_refl hfloor⟩
  | openGroup position call =>
      refine ⟨List.pairwise_cons.mpr ⟨fun depth hmem => ?_, hlayered⟩,
        keeps_refl hfloor⟩
      rcases List.mem_cons.mp hmem with rfl | hrest
      · exact le_rfl
      · exact hbehind depth hrest
  | reduce =>
      have hsinks := reduce_sinks mode hfloor
      exact ⟨hsinks.isLayered hlayered, hsinks.operands⟩
  | reduceGroup =>
      have hsinks := (reduceGroup_sinksInside mode hfloor).toSinks
      exact ⟨hsinks.isLayered hlayered, hsinks.operands⟩
  | closeGroup position =>
      have hsinks := closeGroup_sinks mode position hfloor
      exact ⟨hsinks.isLayered hlayered, hsinks.operands⟩

theorem isLayered_of_reached
    (hreached : Relation.ReflTransGen Stacks.MovesTo .empty state) :
    state.IsLayered := by
  induction hreached with
  | refl => exact List.pairwise_singleton _ _
  | tail _ hmoves ih => exact (hmoves.keeps ih).1

/-- While a group stays open, the operands behind it stay the same. -/
theorem keeps_of_movesAbove {group : Group} {below : List Pending}
    (hlayered : state.IsLayered) (hopen : .group group :: below <:+ state.pending)
    (hmoves : Relation.ReflTransGen (Stacks.MovesAbove (.group group :: below))
      state next) : Operands.Keeps group.depth state.operands next.operands := by
  have hrun : next.IsLayered ∧ .group group :: below <:+ next.pending ∧
      Operands.Keeps group.depth state.operands next.operands := by
    induction hmoves with
    | refl =>
        exact ⟨hlayered, hopen,
          keeps_refl ((depth_le_floor hlayered hopen).trans hlayered.floor_le)⟩
    | tail _ hlast ih =>
        obtain ⟨hbetween, hstill, hkeeps⟩ := ih
        obtain ⟨hmoves, hkept⟩ := hlast
        obtain ⟨hnext, hfurther⟩ := hmoves.keeps hbetween
        exact ⟨hnext, hkept,
          hkeeps.trans (hfurther.mono (depth_le_floor hbetween hstill))⟩
  exact hrun.2.2

theorem reduce_eq_failed {token : Token} {rest : List Pending} {failure : Failure}
    (hpending : state.pending = .token token :: rest)
    (hreduce : state.reduce mode = .failed failure next) :
    next = ⟨state.operands, rest⟩ := by
  simp only [Stacks.reduce, hpending] at hreduce
  split at hreduce <;> cases hreduce
  rfl

/-- However the stacks have come about by single operations, done or failed, in either
mode, the open groups hold back ever more operands from the outside in, and not more
than there are.  While a group stays open, the operands behind it stay the same.  A
reduction that fails takes its token away and nothing else. -/
theorem groups_stay_isolated
    (hreached : Relation.ReflTransGen Stacks.MovesTo .empty state) :
    (groupDepths state.pending).Pairwise (· ≥ ·) ∧
      floor state.pending ≤ state.operands.values.length ∧
      (∀ group below later, .group group :: below <:+ state.pending →
        Relation.ReflTransGen (Stacks.MovesAbove (.group group :: below)) state later →
        later.operands.lowest group.depth = state.operands.lowest group.depth) ∧
      ∀ mode token rest failure left, state.pending = .token token :: rest →
        state.reduce mode = .failed failure left → left = ⟨state.operands, rest⟩ := by
  have hlayered := isLayered_of_reached hreached
  refine ⟨hlayered.of_cons, hlayered.floor_le, fun group below later hopen hmoves => ?_,
    fun mode token rest failure left => reduce_eq_failed⟩
  exact (keeps_of_movesAbove hlayered hopen hmoves).lowest

/-- Inside the group two operands are joined, and then an operator finds only
their sum there. -/
theorem operand_behind_group_stays :
    let behind : Expr := .number (some 1)
    let opened : Group := ⟨3, 1, false⟩
    let sum : Expr := .apply (.operator .add) (.number (some 2)) (.number (some 3))
    let state : Stacks := ⟨⟨[behind], []⟩, [.group opened]⟩
    let later : Stacks := ⟨⟨[sum, behind], []⟩, [.group opened]⟩
    Relation.ReflTransGen Stacks.MovesTo .empty state ∧
      Relation.ReflTransGen (Stacks.MovesAbove [.group opened]) state later ∧
      floor state.pending ≤ state.operands.values.length ∧
      later.operands.lowest opened.depth = state.operands.lowest opened.depth := by
  intro behind opened sum state later
  let plus : Token := ⟨.operator .add, "+", 5, none⟩
  let times : Token := ⟨.operator .mul, "*", 7, none⟩
  have hreached : Relation.ReflTransGen Stacks.MovesTo .empty state :=
    .tail (.single ⟨.building, .value behind, rfl⟩) ⟨.building, .openGroup 3 false, rfl⟩
  have hsummed :
      Relation.ReflTransGen (Stacks.MovesAbove [.group opened]) state later :=
    .tail (.tail (.tail (.single
      ⟨⟨.building, .value (.number (some 2)), rfl⟩, [], rfl⟩)
      ⟨⟨.building, .value (.number (some 3)), rfl⟩, [], rfl⟩)
      ⟨⟨.building, .token plus, rfl⟩, [.token plus], rfl⟩)
      ⟨⟨.building, .reduce, rfl⟩, [], rfl⟩
  have hlacking :
      Relation.ReflTransGen (Stacks.MovesAbove [.group opened]) state later :=
    .tail (.tail hsummed ⟨⟨.building, .token times, rfl⟩, [.token times], rfl⟩)
      ⟨⟨.building, .reduce, rfl⟩, [], rfl⟩
  obtain ⟨-, hfloor, hstays, -⟩ := groups_stay_isolated hreached
  exact ⟨hreached, hlacking, hfloor, hstays opened [] later List.suffix_rfl hlacking⟩

end InfixCalc
