import FormatEdits.Proofs.CommandLine.Outcomes

namespace FormatEdits

theorem Json.read_line {v : Json} (h : Regular depthLimit v) (l : Layout) :
    read (CommandLine.line (write l v)) = .ok v := by
  obtain ⟨c,r,hc,hspace,-⟩ := writeAt_cons h l 0
  have hskip : skipSpace (CommandLine.line (write l v)) = write l v ++ ['\n'] := by
    rw [CommandLine.line,write,hc]
    exact skipSpace_cons hspace _
  have hread := h.reads l 0 (2 * (CommandLine.line (write l v)).length + 2) ['\n']
    (by rw [CommandLine.line,write,List.length_append]; omega) (apart_cons (by decide) [])
  rw [← write] at hread
  rw [read,hskip,hread]
  rfl

namespace Edit

/-- The list is read back from its printed form, item by item. -/
def ReadBack (printed : Text) (edits : List Edit) : Prop :=
  ∃ vs, Json.read printed = .ok (.array vs) ∧ vs.map Edit.read = edits.map .valid

theorem readBack_of_readable {edits : List Edit} (h : ∀ e ∈ edits, e.Readable) :
    ReadBack (CommandLine.line (Json.write (.indented 2) (.array (edits.map toJson)))) edits := by
  refine ⟨edits.map toJson,?_,?_⟩
  · exact Json.read_line (regular_items h 968) (.indented 2)
  · rw [List.map_map]
    apply List.map_congr_left
    intro e _
    exact read_toJson e

theorem lines_of_writable {edits : List Edit}
    (h : (Json.array (edits.map toJson)).writable = true) : ∀ e ∈ edits,
      Json.writableInt e.startLine = true ∧ Json.writableInt e.endLine = true := by
  rw [Json.writable] at h
  induction edits with
  | nil => nofun
  | cons e edits ih =>
    rw [List.map_cons,Json.writableItems,Bool.and_eq_true] at h
    obtain ⟨hfirst,hothers⟩ := h
    simp only [toJson,Json.writable,Json.writableMembers,Bool.and_eq_true] at hfirst
    exact List.forall_mem_cons.mpr ⟨⟨hfirst.1,hfirst.2.1⟩,ih hothers⟩

end Edit

namespace CommandLine

/-- Edits of a report or of a formatted document are printed so that they can be read again,
whatever characters are in their texts, if none of their lines has more digits than may be read. The
text that is printed for them is read as a list, each item of it as the edit that stood there, and a
run that has collected them prints this text. -/
theorem printed_edits_read_back {edits : List Edit} (hproduced : Edit.Produced edits)
    (hlines : ∀ e ∈ edits,
      Json.writableInt e.startLine = true ∧ Json.writableInt e.endLine = true) :
    let printed := line (Json.write (.indented 2) (.array (edits.map Edit.toJson)))
    Edit.ReadBack printed edits ∧
      ∀ (host : Host) (settings : Settings) (words : List Text) (i : Invocation)
        (advisory : Option Text), Invocation.read words = .ok i → i.command = .edits →
          i.collect host settings = .ok (edits,advisory) → run host settings words =
            { stdout := printed, stderr := (advisory.map line).getD [], status := .ok 0 } := by
  intro printed
  have hprinted : Invocation.editsText edits = .ok printed :=
    Invocation.editsText_of_produced hproduced hlines
  refine ⟨Edit.readBack_of_readable (hproduced.readable hlines),?_⟩
  intro host settings words i advisory hread hcommand hcollect
  apply run_of_result hread hcollect
  rw [Invocation.resultText,hcommand]
  exact hprinted

/-- Quotes, backslashes, a control character, a line separator and a character of two units, in an
insertion in front of the first line; and a deletion behind it. -/
theorem printed_edits_read_back_of_quotes :
    let report := "Diff of a.rs:\nDiff at line 0\n+\"\\\x01\u2028😀\nDiff at line 9\n-x⏎".toList
    let edits : List Edit := [⟨-1,-1,0,some 0,"\"\\\x01\u2028😀".toList⟩,⟨7,7,0,none,[]⟩]
    let host := Host.writing (Text.Utf8.encode report)
    let words := ["edits".toList,"a.rs".toList,"--report".toList,"/saved".toList]
    (Edit.Produced edits ∧
        ∀ e ∈ edits, Json.writableInt e.startLine = true ∧ Json.writableInt e.endLine = true) ∧
      (run host {} words).status = .ok 0 ∧ Edit.ReadBack (run host {} words).stdout edits := by
  intro report edits host words
  have hclean : Escape.Clean report := by decide
  have hedits : Report.interpretColoured host ({} : Settings).resolveLinks "a.rs".toList report =
      .ok edits := by
    rw [Report.interpretColoured,Escape.strip_of_clean hclean]
    rfl
  have hlines : ∀ e ∈ edits,
      Json.writableInt e.startLine = true ∧ Json.writableInt e.endLine = true := by
    have hsmall {n : Int} (h : n.natAbs < 10) : Json.writableInt n = true :=
      Json.writableInt_of_lt_ten h
    simp only [edits,List.forall_mem_cons]
    exact ⟨⟨hsmall (by decide),hsmall (by decide)⟩,⟨hsmall (by decide),hsmall (by decide)⟩,
      List.forall_mem_nil _⟩
  have hpaired : Text.Paired report := by decide
  let i : Invocation :=
    { command := .edits, path := "a.rs".toList, report := some "/saved".toList }
  have hread : Invocation.read words = .ok i := rfl
  have hcollect : i.collect host {} = .ok (edits,none) :=
    Invocation.collect_of_report hpaired hedits rfl rfl rfl
      (Document.readBytes_writing (Text.Utf8.encode report))
  obtain ⟨hback,hruns⟩ := printed_edits_read_back (.interpreted hedits) hlines
  refine ⟨⟨.interpreted hedits,hlines⟩,?_⟩
  rw [hruns host {} words _ none hread rfl hcollect]
  exact ⟨rfl,hback⟩

/-- Whatever the program prints as edits is read back as those that it collected. -/
theorem run_reads_back {host : Host} {settings : Settings} {words : List Text} {i : Invocation}
    (hread : Invocation.read words = .ok i) (hcommand : i.command = .edits)
    (hstatus : (run host settings words).status = .ok 0) :
    ∃ edits advisory, i.collect host settings = .ok (edits,advisory) ∧
      Edit.ReadBack (run host settings words).stdout edits := by
  have hcompletes := completes_of_success hstatus
  generalize (run host settings words).stdout = printed at hcompletes ⊢
  cases hcompletes with
  | help hother => cases hread.symm.trans hother
  | edits hother _ hcollect hwritable =>
    cases hread.symm.trans hother
    have hlines := Edit.lines_of_writable hwritable
    exact ⟨_,_,hcollect,
      Edit.readBack_of_readable ((Invocation.produced_of_collect hcollect).readable hlines)⟩
  | preview hother hpreview =>
    cases hread.symm.trans hother
    cases hcommand.symm.trans hpreview

end CommandLine
end FormatEdits
