import InfixCalc.Proofs.CommandOutcomes

/-!
# Settings leave the answer alone

Debugging and folding are set by arguments in front of the command and by the
environment.  Whatever stands there, the same task is asked for, and a task has one
answer.  So two runs that differ in their settings only can be told apart by
nothing but their journals.
-/

namespace InfixCalc

/-- The argument turns debugging on or folding off. -/
def IsSetting (arg : String) : Prop :=
  classifyArgument allSwitches arg.toList = .switch .debug ∨
    classifyArgument allSwitches arg.toList = .switch .lazy

/-- The command lines differ at most in the settings in front of their command.  Behind
the command there are none to differ in: only help is known there, and what would be a
setting further in front spoils the line (`readExpression_setting`). -/
inductive DiffersInSettings : List String → List String → Prop
  | same (args : List String) : DiffersInSettings args args
  | option {arg : String} {former latter : List String}
      (hoption : classifyArgument allSwitches arg.toList ≠ .operand)
      (hrest : DiffersInSettings former latter) :
      DiffersInSettings (arg :: former) (arg :: latter)
  | former {arg : String} {former latter : List String} (hsetting : IsSetting arg)
      (hrest : DiffersInSettings former latter) :
      DiffersInSettings (arg :: former) latter
  | latter {arg : String} {former latter : List String} (hsetting : IsSetting arg)
      (hrest : DiffersInSettings former latter) :
      DiffersInSettings former (arg :: latter)

/-- The requests are alike but for the settings of a run. -/
inductive Request.SameTask : Request → Request → Prop
  | run {former latter : Invocation} (hcommand : former.command = latter.command)
      (hexpression : former.expression = latter.expression) :
      Request.SameTask (.run former) (.run latter)
  | help : Request.SameTask .help .help
  | misuse : Request.SameTask .misuse .misuse

/-- Nothing but the journal tells the transcripts apart. -/
structure Transcript.AgreesWith (former latter : Transcript) : Prop where
  exitCode : former.exitCode = latter.exitCode
  stdout : former.stdout = latter.stdout
  complaints : complaints former.stderr = complaints latter.stderr

/-! ## Reading the command line -/

/-- What is done with the expression decides what is asked for. -/
theorem readExpression_sameTask {finish other : String → Request}
    (hfinish : ∀ expression, (finish expression).SameTask (other expression))
    (args : List String) (expression : Option String) (stray : Bool) :
    (readExpression finish expression stray args).SameTask
      (readExpression other expression stray args) := by
  induction args generalizing expression stray with
  | nil =>
      cases expression with
      | none => exact .misuse
      | some found =>
          cases stray
          · exact hfinish found
          · exact .misuse
  | cons arg rest ih =>
      simp only [readExpression]
      split
      · split
        · split
          · exact .misuse
          · exact hfinish _
        · exact .misuse
      · split
        · split
          · exact ih _ _
          · exact ih _ _
        · exact .help
        · exact ih _ _
        · exact .misuse

/-- Two lines that begin alike go on alike if their rests do. -/
theorem readSwitches_cons_sameTask {arg : String} {former latter : List String}
    (hrest : ∀ debug lazy others otherLazy stray,
      (readSwitches debug lazy stray former).SameTask
        (readSwitches others otherLazy stray latter))
    (hoperand : classifyArgument allSwitches arg.toList = .operand → former = latter)
    (debug lazy others otherLazy stray : Bool) :
    (readSwitches debug lazy stray (arg :: former)).SameTask
      (readSwitches others otherLazy stray (arg :: latter)) := by
  simp only [readSwitches]
  split
  · exact .misuse
  · split
    · rename_i hclass
      cases hoperand hclass
      split
      · apply readExpression_sameTask
        intro expression
        exact .run rfl rfl
      · exact .misuse
    · exact .help
    · exact hrest _ _ _ _ _
    · exact hrest _ _ _ _ _
    · exact hrest _ _ _ _ _
    · exact .misuse

theorem readSwitches_same (args : List String)
    (debug lazy others otherLazy stray : Bool) :
    (readSwitches debug lazy stray args).SameTask
      (readSwitches others otherLazy stray args) := by
  induction args generalizing debug lazy others otherLazy stray with
  | nil => exact .misuse
  | cons arg rest ih => exact readSwitches_cons_sameTask ih (fun _ => rfl) _ _ _ _ _

theorem IsSetting.ne_dashes {arg : String} (hsetting : IsSetting arg) : arg ≠ "--" := by
  rintro rfl
  have hambiguous : classifyArgument allSwitches "--".toList = .ambiguous := by
    decide +kernel
  rcases hsetting with hdebug | hlazy
  · cases hambiguous.symm.trans hdebug
  · cases hambiguous.symm.trans hlazy

/-- A setting is taken note of and then left out. -/
theorem IsSetting.readSwitches_eq {arg : String} (hsetting : IsSetting arg)
    (debug lazy stray : Bool) (rest : List String) :
    ∃ nextDebug nextLazy, readSwitches debug lazy stray (arg :: rest) =
      readSwitches nextDebug nextLazy stray rest := by
  rw [readSwitches, if_neg hsetting.ne_dashes]
  rcases hsetting with hdebug | hlazy
  · rw [hdebug]
    exact ⟨true, lazy, rfl⟩
  · rw [hlazy]
    exact ⟨debug, true, rfl⟩

/-! ## Settings behind the command -/

theorem Switch.ne_marks_of_mem {switch : Switch} {char : Char}
    (hmem : char ∈ switch.name) : char ≠ '=' ∧ char ≠ ' ' := by
  have hmarks : switch.name.all (fun mark => mark != '=' && mark != ' ') = true := by
    cases switch <;> rfl
  simpa using List.all_eq_true.mp hmarks char hmem

theorem longOption_eq_switch {switches : List Switch} {chars : List Char}
    {switch : Switch} (hswitch : longOption switches chars = .switch switch) :
    (switches.filter fun known => chars.isPrefixOf known.name) = [switch] := by
  simp only [longOption] at hswitch
  split at hswitch
  · split at hswitch <;> cases hswitch
  · rename_i hfilter
    split at hswitch <;> cases hswitch
    rename_i hvalued
    have hwhole : chars.takeWhile (· != '=') = chars := by
      refine List.takeWhile_eq_self_iff.mpr fun char hmem => ?_
      rw [bne_iff_ne]
      rintro rfl
      exact hvalued (List.contains_iff_mem.mpr hmem)
    rwa [hwhole] at hfilter
  · cases hswitch

/-- Where help is the only switch, a shortened name of another one is unknown. -/
theorem longOption_help_of_other {chars : List Char} {switch : Switch}
    (hswitch : longOption allSwitches chars = .switch switch)
    (hother : switch ≠ .help) : longOption [.help] chars = .unknown := by
  have hfilter := longOption_eq_switch hswitch
  have hmem : switch ∈ allSwitches.filter fun known => chars.isPrefixOf known.name := by
    rw [hfilter]
    exact List.mem_singleton_self switch
  have hshortens : chars <+: switch.name :=
    List.isPrefixOf_iff_prefix.mp (List.mem_filter.mp hmem).2
  have hmarks (char : Char) (hchar : char ∈ chars) : char ≠ '=' ∧ char ≠ ' ' :=
    Switch.ne_marks_of_mem (hshortens.subset hchar)
  have hwhole : chars.takeWhile (· != '=') = chars :=
    List.takeWhile_eq_self_iff.mpr fun char hchar =>
      bne_iff_ne.mpr (hmarks char hchar).1
  have hhelp : chars.isPrefixOf Switch.help.name = false := by
    refine Bool.eq_false_iff.mpr fun hhelp => hother ?_
    have hfound : Switch.help ∈ allSwitches.filter fun known =>
        chars.isPrefixOf known.name :=
      List.mem_filter.mpr ⟨by decide, hhelp⟩
    rw [hfilter] at hfound
    exact (List.mem_singleton.mp hfound).symm
  have hspace : chars.contains ' ' = false :=
    Bool.eq_false_iff.mpr fun hspace =>
      (hmarks _ (List.contains_iff_mem.mp hspace)).2 rfl
  simp only [longOption, hwhole, List.filter_cons, hhelp, Bool.false_eq_true, if_false,
    List.filter_nil, hspace]

theorem IsSetting.classifyArgument_help {arg : String} (hsetting : IsSetting arg) :
    classifyArgument [.help] arg.toList = .unknown := by
  obtain ⟨switch, hother, hclass⟩ : ∃ switch, switch ≠ Switch.help ∧
      classifyArgument allSwitches arg.toList = .switch switch := by
    rcases hsetting with hdebug | hlazy
    · exact ⟨.debug, by decide, hdebug⟩
    · exact ⟨.lazy, by decide, hlazy⟩
  unfold classifyArgument at hclass ⊢
  split at hclass
  · exact longOption_help_of_other hclass hother
  · simp only [shortHelp] at hclass
    split at hclass
    all_goals
      split at hclass <;> cases hclass
      exact absurd rfl hother
  · split at hclass <;> cases hclass
  · cases hclass

variable {finish : String → Request}

/-- Behind a stray argument only help can still be asked for. -/
theorem readExpression_stray (args : List String) (expression : Option String) :
    readExpression finish expression true args ∈ [Request.help, .misuse] := by
  induction args generalizing expression with
  | nil => cases expression <;> simp [readExpression]
  | cons arg rest ih =>
      simp only [readExpression]
      split
      · split <;> simp
      · split
        · split <;> exact ih _
        · simp
        · exact ih _
        · simp

/-- A setting behind the command is held against the line, so that nothing is run. -/
theorem readExpression_setting {before rest : List String} {arg : String}
    (hsetting : IsSetting arg) (hdashes : "--" ∉ before) (expression : Option String)
    (stray : Bool) :
    readExpression finish expression stray (before ++ arg :: rest) ∈
      [Request.help, .misuse] := by
  induction before generalizing expression stray with
  | nil =>
      simp only [List.nil_append, readExpression, if_neg hsetting.ne_dashes,
        hsetting.classifyArgument_help]
      exact readExpression_stray rest expression
  | cons first before ih =>
      obtain ⟨hfirst, hbefore⟩ := List.ne_and_not_mem_of_not_mem_cons hdashes
      simp only [List.cons_append, readExpression, if_neg (Ne.symm hfirst)]
      split
      · split <;> exact ih hbefore _ _
      · simp
      · exact ih hbefore _ _
      · simp

/-! ## The same task -/

theorem DiffersInSettings.readSwitches_sameTask {former latter : List String}
    (hdiffers : DiffersInSettings former latter)
    (debug lazy others otherLazy stray : Bool) :
    (readSwitches debug lazy stray former).SameTask
      (readSwitches others otherLazy stray latter) := by
  induction hdiffers generalizing debug lazy others otherLazy stray with
  | same args => exact readSwitches_same args _ _ _ _ _
  | option hoption _ ih =>
      exact readSwitches_cons_sameTask ih
        (fun hoperand => absurd hoperand hoption) _ _ _ _ _
  | former hsetting _ ih =>
      obtain ⟨nextDebug, nextLazy, hnext⟩ := hsetting.readSwitches_eq debug lazy stray _
      rw [hnext]
      exact ih _ _ _ _ _
  | latter hsetting _ ih =>
      obtain ⟨nextDebug, nextLazy, hnext⟩ :=
        hsetting.readSwitches_eq others otherLazy stray _
      rw [hnext]
      exact ih _ _ _ _ _

/-- An ambiguous option stands before any double dash. -/
def isSpoiled (args : List String) : Bool :=
  (args.takeWhile (· != "--")).any fun arg =>
    classifyArgument allSwitches arg.toList = .ambiguous

theorem isSpoiled_cons {arg : String} (hgoes : arg ≠ "--") (rest : List String) :
    isSpoiled (arg :: rest) =
      (decide (classifyArgument allSwitches arg.toList = .ambiguous) ||
        isSpoiled rest) := by
  have hkept : (arg != "--") = true := bne_iff_ne.mpr hgoes
  simp only [isSpoiled, List.takeWhile_cons, hkept, if_true, List.any_cons]

theorem IsSetting.isSpoiled_cons {arg : String} (hsetting : IsSetting arg)
    (rest : List String) : isSpoiled (arg :: rest) = isSpoiled rest := by
  have hother : classifyArgument allSwitches arg.toList ≠ .ambiguous := by
    rcases hsetting with hdebug | hlazy
    · rw [hdebug]
      exact nofun
    · rw [hlazy]
      exact nofun
  rw [InfixCalc.isSpoiled_cons hsetting.ne_dashes, decide_eq_false hother,
    Bool.false_or]

theorem DiffersInSettings.isSpoiled_eq {former latter : List String}
    (hdiffers : DiffersInSettings former latter) :
    isSpoiled former = isSpoiled latter := by
  induction hdiffers with
  | same args => rfl
  | @option arg former latter hoption hrest ih =>
      by_cases hdashes : arg = "--"
      · subst hdashes
        rfl
      · rw [isSpoiled_cons hdashes, isSpoiled_cons hdashes, ih]
  | former hsetting _ ih => exact (hsetting.isSpoiled_cons _).trans ih
  | latter hsetting _ ih => exact ih.trans (hsetting.isSpoiled_cons _).symm

/-- Settings do not change what is asked for. -/
theorem DiffersInSettings.ofArguments_sameTask {former latter : List String}
    (hdiffers : DiffersInSettings former latter) :
    (Request.ofArguments former).SameTask (Request.ofArguments latter) := by
  change
    (if isSpoiled former then .misuse
      else readSwitches false false false former).SameTask
      (if isSpoiled latter then .misuse else readSwitches false false false latter)
  rw [hdiffers.isSpoiled_eq]
  split
  · exact .misuse
  · exact hdiffers.readSwitches_sameTask _ _ _ _ _

/-- A command line that asks for the run. -/
def Invocation.arguments (invocation : Invocation) : List String :=
  (if invocation.debug then ["--debug"] else []) ++
    ((if invocation.lazy then ["--lazy"] else []) ++
      [invocation.command.name, "--", invocation.expression])

theorem isSetting_debug : IsSetting "--debug" := .inl (by decide +kernel)

theorem isSetting_lazy : IsSetting "--lazy" := .inr (by decide +kernel)

theorem readSwitches_debug (debug lazy stray : Bool) (rest : List String) :
    readSwitches debug lazy stray ("--debug" :: rest) =
      readSwitches true lazy stray rest := by
  have hclass : classifyArgument allSwitches "--debug".toList = .switch .debug := by
    decide +kernel
  rw [readSwitches, if_neg isSetting_debug.ne_dashes, hclass]

theorem readSwitches_lazy (debug lazy stray : Bool) (rest : List String) :
    readSwitches debug lazy stray ("--lazy" :: rest) =
      readSwitches debug true stray rest := by
  have hclass : classifyArgument allSwitches "--lazy".toList = .switch .lazy := by
    decide +kernel
  rw [readSwitches, if_neg isSetting_lazy.ne_dashes, hclass]

/-- Every run can be asked for, whatever its expression. -/
theorem ofArguments_arguments (invocation : Invocation) :
    Request.ofArguments invocation.arguments = .run invocation := by
  obtain ⟨debug, lazy, command, expression⟩ := invocation
  have hspoiled : isSpoiled [command.name, "--", expression] = false := by
    cases command <;> cbv
  have hread : readSwitches debug lazy false [command.name, "--", expression] =
      .run ⟨debug, lazy, command, expression⟩ := by
    cases command <;> cbv
  change (if isSpoiled _ then .misuse else readSwitches false false false _) = _
  cases debug <;> cases lazy <;>
    simpa only [Invocation.arguments, isSetting_debug.isSpoiled_cons,
      isSetting_lazy.isSpoiled_cons, readSwitches_debug, readSwitches_lazy,
      List.nil_append, List.singleton_append, if_true, Bool.false_eq_true, if_false,
      hspoiled] using hread

/-! ## Running -/

/-- Runs of one task agree, whatever their settings. -/
theorem runs_agree {former latter : Invocation}
    (hcommand : former.command = latter.command)
    (hexpression : former.expression = latter.expression)
    (environment other : Settings) :
    (former.run environment).AgreesWith (latter.run other) := by
  have hlatter := run_cases latter other
  rw [← hcommand, ← hexpression] at hlatter
  rcases run_cases former environment with
    ⟨fault, hfails, hunbroken, hrun⟩ | ⟨lines, hanswers, -, hrun⟩
  · rcases hlatter with ⟨found, hfound, -, hother⟩ | ⟨others, hothers, -, -⟩
    · cases hfails.unique hfound
      have hcomplaints := (complaints_of_fails former hunbroken environment).trans
        (complaints_of_fails latter hunbroken other).symm
      rw [hrun, hother]
      exact ⟨rfl, rfl, hcomplaints⟩
    · exact absurd hfails (hothers.not_fails fault)
  · rcases hlatter with ⟨found, hfound, -, -⟩ | ⟨others, hothers, -, hother⟩
    · exact absurd hfound (hanswers.not_fails found)
    · cases hanswers.unique hothers
      have hcomplaints := (complaints_of_log former environment).trans
        (complaints_of_log latter other).symm
      rw [hrun, hother]
      exact ⟨rfl, rfl, hcomplaints⟩

theorem Request.SameTask.transcripts_agree {former latter : Request}
    (hsame : former.SameTask latter) (environment other : Settings) :
    (former.transcript environment).AgreesWith (latter.transcript other) := by
  cases hsame with
  | run hcommand hexpression => exact runs_agree hcommand hexpression environment other
  | help => exact ⟨rfl, rfl, rfl⟩
  | misuse => exact ⟨rfl, rfl, rfl⟩

/-- Settings never change the answer.  Two command lines that differ in the settings in
front of their command end with the same code, the same standard output and the same
complaints, whatever the variables of their environments are. -/
theorem transcripts_agree_of_differsInSettings {former latter : List String}
    (hdiffers : DiffersInSettings former latter)
    (lookup other : String → Option String) :
    ((Request.ofArguments former).transcript (.ofVariables lookup)).AgreesWith
      ((Request.ofArguments latter).transcript (.ofVariables other)) :=
  hdiffers.ofArguments_sameTask.transcripts_agree _ _

theorem debugged_and_lazy_run_agrees :
    let former := ["--debug", "--laz", "eval", "2^(1"]
    let latter := ["eval", "2^(1"]
    DiffersInSettings former latter ∧
      ((Request.ofArguments former).transcript
          (.ofVariables fun _ => some " Off ")).AgreesWith
        ((Request.ofArguments latter).transcript (.ofVariables fun _ => none)) := by
  intro former latter
  have hlazy : IsSetting "--laz" := .inr (by decide +kernel)
  have hdiffers : DiffersInSettings former latter :=
    .former isSetting_debug (.former hlazy (.same latter))
  exact ⟨hdiffers, transcripts_agree_of_differsInSettings hdiffers _ _⟩

end InfixCalc
