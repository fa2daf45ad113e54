import InfixCalc.Proofs.NestSteps

/-!
# Runs of a nest

A run reads a row of tokens one step after the other.  The reader follows it: where
the run ends with the tokens the reader answers with what the last nest is, and where
a step fails the reader fails in the same way.
-/

namespace InfixCalc

/-- Reading a row of tokens, one step after the other. -/
inductive Nest.Run : Nest → List Token → Nest → Prop
  | nil (nest : Nest) : Nest.Run nest [] nest
  | cons {nest next last : Nest} {token : Token} {role : Role} {tokens : List Token}
      (means : token.role? = some role) (hread : nest.read token role means = .ok next)
      (hrest : Nest.Run next tokens last) : Nest.Run nest (token :: tokens) last

theorem Nest.Run.append {nest middle last : Nest} {consumed tokens : List Token}
    (hfirst : Nest.Run nest consumed middle) (hsecond : Nest.Run middle tokens last) :
    Nest.Run nest (consumed ++ tokens) last := by
  induction hfirst with
  | nil nest => exact hsecond
  | cons means hread _ ih => exact .cons means hread (ih hsecond)

theorem Nest.Run.single {nest next : Nest} {token : Token} {role : Role}
    (means : token.role? = some role) (hread : nest.read token role means = .ok next) :
    Nest.Run nest [token] next :=
  .cons means hread (.nil next)

/-- The reader follows a run of a nest. -/
theorem readOn_run {nest last : Nest} {tokens : List Token}
    (hrun : Nest.Run nest tokens last) {previous : Option Token}
    (hfollows : nest.focus.Follows previous) :
    ∃ latest, last.focus.Follows latest ∧ ∀ rest,
      readOn .building previous nest.stacks (tokens ++ rest) =
        readOn .building latest last.stacks rest := by
  induction hrun generalizing previous with
  | nil nest => exact ⟨previous, hfollows, fun _ => rfl⟩
  | @cons nest next last token role tokens means hread _ ih =>
      obtain ⟨latest, hlatest, hrest⟩ := ih (follows_of_read means hread)
      refine ⟨latest, hlatest, fun rest => ?_⟩
      have hmatches := readToken_stacks nest hfollows means
      rw [hread] at hmatches
      change readToken .building previous token nest.stacks =
        .done next.stacks at hmatches
      rw [List.cons_append, readOn, hmatches]
      exact hrest rest

theorem follows_start : Nest.start.focus.Follows none := ⟨rfl, rfl⟩

/-- Where a run uses up the tokens, the reader answers with what the last nest is. -/
theorem readTokens_of_run {tokens : List Token} {last : Nest}
    (hrun : Nest.Run .start tokens last) :
    readTokens .building tokens = ⟨last.finish.mapError .fault, [], []⟩ := by
  obtain ⟨latest, hlatest, hrest⟩ := readOn_run hrun follows_start
  have hread := hrest []
  rw [List.append_nil] at hread
  rw [← finishReading_stacks last hlatest]
  exact hread

/-- Where a step of a run fails, the reader fails with the same fault and leaves the
tokens behind it unread. -/
theorem readTokens_of_fault {consumed rest : List Token} {nest : Nest} {token : Token}
    {role : Role} {fault : Fault} (hrun : Nest.Run .start consumed nest)
    (means : token.role? = some role)
    (hread : nest.read token role means = .error fault) :
    readTokens .building (consumed ++ token :: rest) =
      ⟨.error (.fault fault), rest, []⟩ := by
  obtain ⟨latest, hlatest, hrest⟩ := readOn_run hrun follows_start
  have hmatches := readToken_stacks nest hlatest means
  rw [hread] at hmatches
  obtain ⟨state, hfailed, hfoldings⟩ := hmatches
  have hreadOn := hrest (token :: rest)
  rw [readOn, hfailed] at hreadOn
  simp only [hfoldings, List.reverse_nil] at hreadOn
  exact hreadOn

/-- A row of well-formed tokens is either read to its end or up to a fault. -/
theorem Nest.run_or_fault (nest : Nest) {tokens : List Token}
    (hformed : ∀ token ∈ tokens, token.isWellFormed = true) :
    (∃ last, Nest.Run nest tokens last) ∨
      ∃ consumed token rest middle role, ∃ means : token.role? = some role, ∃ fault,
        tokens = consumed ++ token :: rest ∧ Nest.Run nest consumed middle ∧
          middle.read token role means = .error fault := by
  induction tokens generalizing nest with
  | nil => exact .inl ⟨nest, .nil nest⟩
  | cons token tokens ih =>
      obtain ⟨role, means⟩ := Token.exists_role (hformed token List.mem_cons_self)
      cases hread : nest.read token role means with
      | error fault =>
          exact .inr ⟨[], token, tokens, nest, role, means, fault, rfl,
            .nil nest, hread⟩
      | ok next =>
          have htail : ∀ token ∈ tokens, token.isWellFormed = true :=
            fun token hmem => hformed token (List.mem_cons_of_mem _ hmem)
          rcases ih next htail with ⟨last, hrun⟩ | hfault
          · exact .inl ⟨last, .cons means hread hrun⟩
          · obtain ⟨consumed, culprit, rest, middle, itsRole, itsMeans, fault, rfl,
              hrun, hfault⟩ :=
              hfault
            exact .inr ⟨token :: consumed, culprit, rest, middle, itsRole, itsMeans,
              fault, rfl, .cons means hread hrun, hfault⟩

end InfixCalc
