import InfixCalc.Proofs.OutputLines

/-!
# What a command leaves behind

A command fails with a fault of its expression or answers with lines, and no defect
comes of it.  Whether it folds or builds makes no difference to that, so the answer is a
matter of the command and the expression alone.  All output is written once the answer
is there: either the lines of the answer, or the one line that reports the fault.
-/

namespace InfixCalc

/-- The command cannot do its work on the expression because of the fault. -/
def Command.Fails (command : Command) (expression : String) (fault : Fault) : Prop :=
  match command with
  | .tokens => tokenize expression = .error fault
  | .eval | .ast => readText .building expression = .error (.fault fault)

/-- The lines that the command is asked for: the value, the text with the least
parentheses, or a line for each token. -/
def Command.Answers (command : Command) (expression : String) (lines : List String) :
    Prop :=
  match command with
  | .tokens => ∃ tokens, tokenize expression = .ok tokens ∧
      lines = tokens.map Token.listing
  | .eval =>
    ∃ tree value, readText .building expression = .ok tree ∧ tree.value = .ok value ∧
      lines = [valueText value]
  | .ast =>
    ∃ tree text, readText .building expression = .ok tree ∧ tree.text = .ok text ∧
      lines = [text]

/-! ## Folding -/

/-- Folding does not change the value of a text. -/
theorem textValue_ofFold (fold : Bool) (text : String) :
    textValue (.ofFold fold) text = textValue .building text := by
  cases fold with
  | false => rfl
  | true =>
      change textValue (.folding Head.apply) text = textValue .building text
      unfold textValue readText
      cases htokens : tokenize text with
      | error fault => rfl
      | ok tokens =>
          have hformed := (scan_eq_ok_iff.mp htokens).isWellFormed
          rcases (readTokens_agree Head.apply hformed).result with
            ⟨failure, hfolded, hbuilt⟩ | ⟨leaf, tree, hfolded, hbuilt, hstands⟩
          · simp only [hfolded, hbuilt]
          · obtain ⟨value, hleaf, htree⟩ := hstands.exists_value
            simp only [hfolded, hbuilt]
            exact hleaf.trans htree.symm

theorem readTextLogged_result (mode : Mode) (text : String) :
    (readTextLogged mode text).reading.result = readText mode text := by
  unfold readTextLogged readText
  cases tokenize text <;> rfl

theorem perform_eval_answer (fold : Bool) (expression : String) :
    (Command.eval.perform (.ofFold fold) expression).answer =
      (textValue .building expression).map fun value => [valueText value] := by
  rw [← textValue_ofFold fold]
  simp only [Command.perform, evalCommand, readTextLogged_result, textValue]
  cases readText (.ofFold fold) expression <;> rfl

theorem perform_ast_answer (mode : Mode) (expression : String) :
    (Command.ast.perform mode expression).answer =
      ((readText .building expression).bind Expr.text).map fun text => [text] := by
  simp only [Command.perform, astCommand, readTextLogged_result]

/-! ## Answers -/

/-- A text that is not read has a fault that can be shown. -/
theorem isPrintable_of_readText {mode : Mode} {text : String} {failure : Failure}
    (hfails : readText mode text = .error failure) :
    ∃ fault, failure = .fault fault ∧ fault.cause.IsPrintable := by
  obtain ⟨fault, hfault, hscan | ⟨tokens, hscan, -, hblames⟩ | ⟨-, rfl⟩⟩ :=
    fault_of_readText hfails
  · exact ⟨fault, hfault, (stops_of_scan hscan).isPrintable⟩
  · have htexts := (scan_eq_ok_iff.mp hscan).isPrintableText
    exact ⟨fault, hfault, hblames.isPrintable htexts⟩
  · exact ⟨_, hfault, trivial⟩

theorem Leaf.IsReadable.hasValue {leaf : Leaf} (hreadable : leaf.IsReadable) :
    leaf.HasValue := by
  match leaf, hreadable with
  | .number (some value), _ => exact rfl
  | .constant _ _, ⟨_, rfl⟩ => exact rfl

theorem exists_value_of_readText {text : String} {tree : Expr}
    (hread : readText .building text = .ok tree) : ∃ value, tree.value = .ok value := by
  have hevaluable : tree.IsEvaluable :=
    fun leaf hmem => (isReadable_of_readText hread leaf hmem).hasValue
  obtain ⟨value, hvalue⟩ := hevaluable.exists_value Head.apply
  exact ⟨some value, hvalue⟩

theorem exists_text_of_readText {text : String} {tree : Expr}
    (hread : readText .building text = .ok tree) :
    ∃ shown, tree.text = .ok shown ∧ IsPrintableText shown :=
  isPrintableText_textWith (isPrintableText_double .literal) fun leaf hmem =>
    (isReadable_of_readText hread leaf hmem).isLiteral

/-- A command fails with a fault or answers with lines.  Whatever it says stays
on its line. -/
theorem answer_cases (command : Command) (fold : Bool) (expression : String) :
    (∃ fault, command.Fails expression fault ∧ fault.cause.IsPrintable ∧
        (command.perform (.ofFold fold) expression).answer = .error (.fault fault)) ∨
      ∃ lines, command.Answers expression lines ∧
        (∀ line ∈ lines, IsPrintableText line) ∧
          (command.perform (.ofFold fold) expression).answer = .ok lines := by
  cases command with
  | tokens =>
      simp only [Command.perform, tokensCommand]
      cases htokens : tokenize expression with
      | error fault =>
          exact .inl ⟨fault, htokens, (stops_of_scan htokens).isPrintable, rfl⟩
      | ok tokens =>
          refine .inr ⟨tokens.map Token.listing, ⟨tokens, htokens, rfl⟩, ?_, rfl⟩
          intro line hline
          obtain ⟨token, -, rfl⟩ := List.mem_map.mp hline
          exact isPrintableText_token token
  | eval =>
      rw [perform_eval_answer, textValue]
      cases hread : readText .building expression with
      | error failure =>
          obtain ⟨fault, rfl, hprintable⟩ := isPrintable_of_readText hread
          exact .inl ⟨fault, hread, hprintable, rfl⟩
      | ok tree =>
          obtain ⟨value, hvalue⟩ := exists_value_of_readText hread
          refine .inr ⟨[valueText value], ⟨tree, value, hread, hvalue, rfl⟩, ?_, ?_⟩
          · exact List.forall_mem_singleton.mpr (isPrintableText_value value)
          · simp only [hvalue]
            rfl
  | ast =>
      rw [perform_ast_answer]
      cases hread : readText .building expression with
      | error failure =>
          obtain ⟨fault, rfl, hprintable⟩ := isPrintable_of_readText hread
          exact .inl ⟨fault, hread, hprintable, rfl⟩
      | ok tree =>
          obtain ⟨shown, hshown, hprintable⟩ := exists_text_of_readText hread
          refine .inr ⟨[shown], ⟨tree, shown, hread, hshown, rfl⟩, ?_, ?_⟩
          · exact List.forall_mem_singleton.mpr hprintable
          · simp only [Except.bind, hshown]
            rfl

theorem Command.Fails.unique {command : Command} {expression : String}
    {fault other : Fault} (hfault : command.Fails expression fault)
    (hother : command.Fails expression other) : fault = other := by
  cases command with
  | tokens => exact Except.error.inj (hfault.symm.trans hother)
  | eval | ast => exact Failure.fault.inj (Except.error.inj (hfault.symm.trans hother))

theorem Command.Answers.unique {command : Command} {expression : String}
    {lines others : List String} (hlines : command.Answers expression lines)
    (hothers : command.Answers expression others) : lines = others := by
  cases command with
  | tokens =>
      obtain ⟨tokens, htokens, rfl⟩ := hlines
      obtain ⟨other, hother, rfl⟩ := hothers
      cases htokens.symm.trans hother
      rfl
  | eval =>
      obtain ⟨tree, value, htree, hvalue, rfl⟩ := hlines
      obtain ⟨other, found, hother, hfound, rfl⟩ := hothers
      cases htree.symm.trans hother
      cases hvalue.symm.trans hfound
      rfl
  | ast =>
      obtain ⟨tree, text, htree, htext, rfl⟩ := hlines
      obtain ⟨other, found, hother, hfound, rfl⟩ := hothers
      cases htree.symm.trans hother
      cases htext.symm.trans hfound
      rfl

/-- A command that answers does not fail. -/
theorem Command.Answers.not_fails {command : Command} {expression : String}
    {lines : List String} (hanswers : command.Answers expression lines)
    (fault : Fault) : ¬command.Fails expression fault := by
  intro hfails
  cases command with
  | tokens =>
      obtain ⟨tokens, htokens, -⟩ := hanswers
      cases htokens.symm.trans hfails
  | eval =>
      obtain ⟨tree, value, hread, -⟩ := hanswers
      cases hread.symm.trans hfails
  | ast =>
      obtain ⟨tree, text, hread, -⟩ := hanswers
      cases hread.symm.trans hfails

/-! ## Output -/

/-- The journal of a command is made of entries that can be told from other lines. -/
theorem isJournalEntry_of_perform (command : Command) (mode : Mode)
    (expression : String) :
    ∀ line ∈ (command.perform mode expression).journal.map Entry.line,
      IsJournalEntry line := by
  have hlogged (mode : Mode) :
      ∀ line ∈ (readTextLogged mode expression).journal.map Entry.line,
        IsJournalEntry line := by
    unfold readTextLogged
    cases tokenize expression with
    | error fault => exact nofun
    | ok tokens =>
        simp only [List.map_cons, List.map_map, List.forall_mem_cons,
          List.forall_mem_map]
        exact ⟨isJournalEntry_scanned _ _,
          fun folding _ => isJournalEntry_folded folding⟩
  cases command with
  | eval => exact hlogged mode
  | ast => exact hlogged .building
  | tokens =>
      simp only [Command.perform, tokensCommand]
      cases tokenize expression with
      | error fault => exact nofun
      | ok tokens => exact List.forall_mem_singleton.mpr (isJournalEntry_scanned _ _)

/-- What goes to standard error before the answer. -/
def Invocation.log (invocation : Invocation) (environment : Settings) : List String :=
  let settings := invocation.settings environment
  let performance :=
    invocation.command.perform (.ofFold settings.fold) invocation.expression
  if settings.debug then
    (Entry.started invocation.command.name invocation.expression settings).line ::
      performance.journal.map Entry.line
  else []

theorem isJournalEntry_of_log (invocation : Invocation) (environment : Settings) :
    ∀ line ∈ invocation.log environment, IsJournalEntry line := by
  simp only [Invocation.log]
  split
  · exact List.forall_mem_cons.mpr
      ⟨isJournalEntry_started _ _ _, isJournalEntry_of_perform _ _ _⟩
  · exact nofun

/-- All that is written is the journal, and behind it the fault or the answer. -/
theorem run_eq (invocation : Invocation) (environment : Settings) :
    invocation.run environment =
      match (invocation.command.perform (.ofFold (invocation.settings environment).fold)
        invocation.expression).answer with
      | .ok lines => ⟨0, linesText lines, linesText (invocation.log environment)⟩
      | .error failure =>
        ⟨1, "",
          linesText (invocation.log environment ++
            ["error: " ++ failure.message])⟩ := by
  simp only [Invocation.run, Invocation.log]
  cases (invocation.settings environment).debug <;> rfl

/-- A run fails or answers as its command does. -/
theorem run_cases (invocation : Invocation) (environment : Settings) :
    (∃ fault, invocation.command.Fails invocation.expression fault ∧
        IsUnbroken ("error: " ++ fault.report.text) ∧
        invocation.run environment = ⟨1, "", linesText
          (invocation.log environment ++ ["error: " ++ fault.report.text])⟩) ∨
      ∃ lines, invocation.command.Answers invocation.expression lines ∧
        (∀ line ∈ lines, IsUnbroken line) ∧
        invocation.run environment =
          ⟨0, linesText lines, linesText (invocation.log environment)⟩ := by
  rw [run_eq]
  rcases answer_cases invocation.command (invocation.settings environment).fold
    invocation.expression with
    ⟨fault, hfails, hprintable, hanswer⟩ | ⟨lines, hanswers, hprintable, hanswer⟩
  · rw [hanswer]
    have hline : IsPrintableText ("error: " ++ fault.report.text) :=
      isPrintableText_append.mpr
        ⟨isPrintableText_of_plain (by decide), isPrintableText_report hprintable⟩
    exact .inl ⟨fault, hfails, hline.isUnbroken, rfl⟩
  · rw [hanswer]
    exact .inr ⟨lines, hanswers, fun line hmem => (hprintable line hmem).isUnbroken,
      rfl⟩

/-- The one complaint of a run that fails is its fault. -/
theorem complaints_of_fails (invocation : Invocation) {fault : Fault}
    (hunbroken : IsUnbroken ("error: " ++ fault.report.text)) (environment : Settings) :
    complaints
      (linesText (invocation.log environment ++ ["error: " ++ fault.report.text])) =
        ["error: " ++ fault.report.text] :=
  complaints_linesText (isJournalEntry_of_log invocation environment)
    (List.forall_mem_singleton.mpr ⟨hunbroken, isJournalLine_error _⟩)

theorem complaints_of_log (invocation : Invocation) (environment : Settings) :
    complaints (linesText (invocation.log environment)) = [] := by
  have hnone :=
    @complaints_linesText _ [] (isJournalEntry_of_log invocation environment) nofun
  rwa [List.append_nil] at hnone

/-! ## Runs -/

/-- A command line that is accepted ends with 0 or 1, and no defect comes of it.  It
ends with 1 just in case that its command fails; it then writes nothing to standard
output and, apart from the journal, the one line that reports the fault to standard
error.  When it ends with 0 there are no complaints, and standard output has the lines
of the answer. -/
theorem transcript_of_accepted {args : List String} {invocation : Invocation}
    (haccepted : Request.ofArguments args = .run invocation)
    (lookup : String → Option String) :
    let command := invocation.command
    let expression := invocation.expression
    let transcript := (Request.ofArguments args).transcript (.ofVariables lookup)
    (∀ fold defect,
        (command.perform (.ofFold fold) expression).answer ≠ .error (.defect defect)) ∧
      (transcript.exitCode = 0 ∨ transcript.exitCode = 1) ∧
      (transcript.exitCode = 1 ↔ ∃ fault, command.Fails expression fault) ∧
      (∀ fault, command.Fails expression fault →
        transcript.stdout = "" ∧
          complaints transcript.stderr = ["error: " ++ fault.report.text] ∧
          IsUnbroken ("error: " ++ fault.report.text)) ∧
      (transcript.exitCode = 0 →
        complaints transcript.stderr = [] ∧
          ∃ lines, command.Answers expression lines ∧
            transcript.stdout = linesText lines ∧ ∀ line ∈ lines, IsUnbroken line) := by
  intro command expression transcript
  have htranscript : transcript = invocation.run (.ofVariables lookup) := by
    simp only [transcript, haccepted]
    rfl
  have hdefect : ∀ fold defect,
      (command.perform (.ofFold fold) expression).answer ≠ .error (.defect defect) := by
    intro fold defect hanswer
    rcases answer_cases command fold expression with
      ⟨fault, -, -, hfault⟩ | ⟨lines, -, -, hlines⟩
    · cases hanswer.symm.trans hfault
    · cases hanswer.symm.trans hlines
  refine ⟨hdefect, ?_⟩
  rcases run_cases invocation (.ofVariables lookup) with
    ⟨fault, hfails, hunbroken, hrun⟩ | ⟨lines, hanswers, hunbroken, hrun⟩
  · rw [htranscript, hrun]
    refine ⟨.inr rfl, iff_of_true rfl ⟨fault, hfails⟩, fun other hother => ?_, nofun⟩
    cases hfails.unique hother
    exact ⟨rfl, complaints_of_fails invocation hunbroken _, hunbroken⟩
  · rw [htranscript, hrun]
    have hnone : ¬∃ fault, command.Fails expression fault :=
      fun ⟨fault, hfails⟩ => hanswers.not_fails fault hfails
    refine ⟨.inl rfl, iff_of_false nofun hnone, fun fault hfails => ?_, fun _ => ?_⟩
    · exact absurd ⟨fault, hfails⟩ hnone
    · exact ⟨complaints_of_log invocation _, lines, hanswers, rfl, hunbroken⟩

theorem illegal_character_is_complained_of :
    let args := ["--debug", "eval", "2 $\n"]
    let transcript := (Request.ofArguments args).transcript (.ofVariables fun _ => none)
    Request.ofArguments args = .run ⟨true, false, .eval, "2 $\n"⟩ ∧
      transcript.exitCode = 1 ∧ transcript.stdout = "" ∧
      complaints transcript.stderr =
        ["error: unexpected character '$', at position 2"] := by
  intro args transcript
  have haccepted : Request.ofArguments args = .run ⟨true, false, .eval, "2 $\n"⟩ := by
    decide +kernel
  have hfails : Command.eval.Fails "2 $\n" ⟨.unexpectedCharacter '$', some 2⟩ := by
    change readText .building "2 $\n" = _
    decide +kernel
  obtain ⟨-, -, hcode, hfault, -⟩ := transcript_of_accepted haccepted fun _ => none
  obtain ⟨hstdout, hcomplaints, -⟩ := hfault _ hfails
  exact ⟨haccepted, hcode.mpr ⟨_, hfails⟩, hstdout, hcomplaints⟩

end InfixCalc
