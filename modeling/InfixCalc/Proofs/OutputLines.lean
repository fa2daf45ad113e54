import InfixCalc.Proofs.PrintableText

/-!
# Lines of output

Output is written line by line, and as no line holds a line break, the lines can be told
apart again.  On standard error an entry of the journal begins with the name of its
source.  What is left without these entries are the complaints.
-/

namespace InfixCalc

/-- The characters at which a text goes on in another line. -/
def isLineBreak (char : Char) : Bool :=
  let code := char.toNat
  (0x0a ≤ code && code ≤ 0x0d) || (0x1c ≤ code && code ≤ 0x1e) || code == 0x85
    || code == 0x2028 || code == 0x2029

/-- The text stays on one line. -/
def IsUnbroken (text : String) : Prop :=
  ∀ char ∈ text.toList, isLineBreak char = false

/-- The lines of a text, the last of which may lack its end. -/
def textLines (text : String) : List String :=
  let pieces := text.toList.splitOn '\n'
  (if pieces.getLast? = some [] then pieces.dropLast else pieces).map String.ofList

/-- Who writes into the journal. -/
def journalSources : List String :=
  ["yard_cli: ", "yard_lexer: ", "yard_parser: "]

def isJournalLine (line : String) : Bool :=
  journalSources.any fun source => source.toList.isPrefixOf line.toList

/-- The lines that are no entries of the journal. -/
def complaints (text : String) : List String :=
  (textLines text).filter fun line => !isJournalLine line

/-! ## Lines without breaks -/

/-- A line break is invisible. -/
theorem isLineBreak_of_isPrintable {char : Char}
    (hprintable : isPrintable char = true) : isLineBreak char = false := by
  have hinvisible :
    ∀ code ∈ [0x0a, 0x0b, 0x0c, 0x0d, 0x1c, 0x1d, 0x1e, 0x85, 0x2028, 0x2029],
      char.toNat ≠ code := by
    intro code hmem hcode
    have hchar : char = Char.ofNat code := by rw [← hcode, Char.ofNat_toNat]
    have hnone : [0x0a, 0x0b, 0x0c, 0x0d, 0x1c, 0x1d, 0x1e, 0x85, 0x2028, 0x2029].all
        (fun code => !isPrintable (Char.ofNat code)) = true := by decide +kernel
    have hother := List.all_eq_true.mp hnone code hmem
    rw [← hchar, hprintable] at hother
    cases hother
  simp only [List.forall_mem_cons] at hinvisible
  simp only [isLineBreak, Bool.or_eq_false_iff, Bool.and_eq_false_iff,
    decide_eq_false_iff_not, beq_eq_false_iff_ne]
  omega

theorem IsPrintableText.isUnbroken {text : String} (hprintable : IsPrintableText text) :
    IsUnbroken text :=
  fun char hmem => isLineBreak_of_isPrintable (hprintable char hmem)

theorem toList_linesText (lines : List String) :
    (linesText lines).toList =
      ['\n'].intercalate (lines.map String.toList ++ [[]]) := by
  induction lines with
  | nil => rfl
  | cons line lines ih =>
      have hnext : ∃ piece pieces, lines.map String.toList ++ [[]] = piece :: pieces :=
        List.exists_cons_of_ne_nil (by simp)
      obtain ⟨piece, pieces, hpieces⟩ := hnext
      have hline : (linesText (line :: lines)).toList =
          line.toList ++ ['\n'] ++ (linesText lines).toList := by
        simp [linesText, String.toList_join]
      rw [hline, ih, List.map_cons, List.cons_append, hpieces,
        List.intercalate_cons_cons]

/-- Lines that hold no break are found again in what is written. -/
theorem textLines_linesText {lines : List String}
    (hunbroken : ∀ line ∈ lines, IsUnbroken line) :
    textLines (linesText lines) = lines := by
  have hpieces : ∀ piece ∈ lines.map String.toList ++ [[]], '\n' ∉ piece := by
    intro piece hpiece hbreak
    rcases List.mem_append.mp hpiece with hline | hlast
    · obtain ⟨line, hmem, rfl⟩ := List.mem_map.mp hline
      exact absurd (hunbroken line hmem '\n' hbreak) (by decide)
    · rw [List.mem_singleton.mp hlast] at hbreak
      cases hbreak
  have hsplit : (linesText lines).toList.splitOn '\n' =
      lines.map String.toList ++ [[]] := by
    rw [toList_linesText]
    exact List.splitOn_intercalate '\n' hpieces (by simp)
  simp only [textLines, hsplit, List.getLast?_concat, if_true, List.dropLast_concat,
    List.map_map]
  simp [Function.comp_def, String.ofList_toList]

/-! ## Journal and complaints -/

/-- An entry that stays on its line and is known by its source. -/
structure IsJournalEntry (line : String) : Prop where
  unbroken : IsUnbroken line
  source : isJournalLine line = true

theorem isJournalLine_append {source rest : String}
    (hsource : source ∈ journalSources) : isJournalLine (source ++ rest) = true := by
  refine List.any_eq_true.mpr ⟨source, hsource, ?_⟩
  rw [String.toList_append, List.isPrefixOf_iff_prefix]
  exact List.prefix_append _ _

theorem isJournalEntry_started (command : Command) (expression : String)
    (settings : Settings) :
    IsJournalEntry (Entry.started command.name expression settings).line := by
  refine ⟨(isPrintableText_started command expression settings).isUnbroken, ?_⟩
  change isJournalLine
    ("yard_cli: " ++ command.name ++ " " ++ quoted expression ++ " with " ++
      settings.listing) = true
  simp only [String.append_assoc]
  exact isJournalLine_append (by decide)

theorem isJournalEntry_scanned (count : Nat) (text : String) :
    IsJournalEntry (Entry.scanned count text).line := by
  refine ⟨(isPrintableText_scanned count text).isUnbroken, ?_⟩
  change isJournalLine ("yard_lexer: scanned " ++ toString count ++ " tokens from "
    ++ quoted text) = true
  have hsource : "yard_lexer: scanned " = "yard_lexer: " ++ "scanned " := rfl
  rw [hsource]
  simp only [String.append_assoc]
  exact isJournalLine_append (by decide)

theorem isJournalEntry_folded (folding : Folding) :
    IsJournalEntry (Entry.folded folding).line := by
  refine ⟨(isPrintableText_folded folding).isUnbroken, ?_⟩
  change isJournalLine ("yard_parser: fold " ++ folding.listing) = true
  have hsource : "yard_parser: fold " = "yard_parser: " ++ "fold " := rfl
  rw [hsource, String.append_assoc]
  exact isJournalLine_append (by decide)

theorem isJournalLine_error (message : String) :
    isJournalLine ("error: " ++ message) = false := by
  rw [isJournalLine, String.toList_append]
  rfl

/-- Behind a journal, what is no entry of it is found again as the complaints. -/
theorem complaints_linesText {log others : List String}
    (hlog : ∀ line ∈ log, IsJournalEntry line)
    (hothers : ∀ line ∈ others, IsUnbroken line ∧ isJournalLine line = false) :
    complaints (linesText (log ++ others)) = others := by
  have hunbroken : ∀ line ∈ log ++ others, IsUnbroken line :=
    List.forall_mem_append.mpr
      ⟨fun line hmem => (hlog line hmem).unbroken,
        fun line hmem => (hothers line hmem).1⟩
  have hnone : log.filter (fun line => !isJournalLine line) = [] :=
    List.filter_eq_nil_iff.mpr fun line hmem => by simp [(hlog line hmem).source]
  have hall : others.filter (fun line => !isJournalLine line) = others :=
    List.filter_eq_self.mpr fun line hmem => by simp [(hothers line hmem).2]
  rw [complaints, textLines_linesText hunbroken, List.filter_append, hnone, hall,
    List.nil_append]

end InfixCalc
