import FormatEdits.Proofs.CommandLine.Outcomes
import FormatEdits.Proofs.Report.Lifting
import FormatEdits.Proofs.Web.Requests

namespace FormatEdits

open Text (Paired)
open Text.Utf8 (encode decodeLenient)
open Web (Request Service Endpoint)

namespace Session

variable {host : Host} {settings : Settings} {path report : Text} {edits : List Edit}

/-- A call that is not overtaken has the edits of the report that its formatter wrote. -/
theorem complete_of_report {executable : Text} {s : Formatter.Started} {g : Generations}
    {call : Call} (hpath : Path.null ∉ call.path)
    (hedits : Report.interpretColoured host settings.resolveLinks call.path report = .ok edits)
    (hs : Formatter.Succeeds host settings ⟨executable,.diff,call.path⟩ s (encode report))
    (hmode : call.mode = .diff) (hcurrent : g.isCurrent call.key call.generation = true)
    (runId : Text) : complete host settings g runId call =
      .ok { path := call.path, mode := .diff, edits, info := infoOf settings runId call } := by
  have houtcome : outcome host settings call = .ok report := by
    rw [← Text.Utf8.decodeLenient_encode report]
    exact outcome_of_succeeds (hmode ▸ hs) hpath
  rw [complete,houtcome]
  refine finish_eq_ok.mpr (.inr ⟨report,edits,rfl,?_,?_⟩)
  · rw [hmode]
    exact editsFromOutput_diff hedits
  · simp [hcurrent,hmode]

theorem format_of_report {executable : Text} {s : Formatter.Started} (hhost : host.NullFree)
    (hpath : Path.null ∉ path)
    (hedits : Report.interpretColoured host settings.resolveLinks path report = .ok edits)
    (hs : Formatter.Succeeds host settings ⟨executable,.diff,path⟩ s (encode report))
    {mode : Json} (hmode : modeOf settings mode = .ok .diff) (g : Generations) (runId : Text) :
    ∃ info, (format host settings g runId path mode).1 =
      .ok { path, mode := .diff, edits, info } := by
  obtain ⟨key,hstart⟩ := start_of_nullFree hhost hpath hmode
  have hcurrent : (g.begin key).2.isCurrent key (g.current key + 1) = true := by
    simp [Generations.isCurrent,Generations.current_begin]
  rw [format,hstart g]
  exact ⟨_,complete_of_report hpath hedits hs rfl hcurrent runId⟩

end Session

namespace Web

variable {host : Host} {settings : Settings} {path report : Text} {edits : List Edit} {r : Request}

theorem serve_format {executable : Text} {started : Formatter.Started} (hhost : host.NullFree)
    (hpath : Path.null ∉ path)
    (hedits : Report.interpretColoured host settings.resolveLinks path report = .ok edits)
    (hs : Formatter.Succeeds host settings ⟨executable,.diff,path⟩ started (encode report))
    (hr : r.Asks .format) (hm : r.model FormatRequest.ofMembers = .ok ⟨path,.diff⟩)
    (s : Service) (fresh : Text) :
    ∃ info, (s.serve host settings fresh r).1 = .ofValue (Service.runIdFor fresh r)
      (FormatResult.toJson { path, mode := .diff, edits, info }) := by
  have hmode : Session.modeOf settings (.string OutputMode.diff.name) = .ok .diff := rfl
  obtain ⟨info,hformat⟩ := Session.format_of_report hhost hpath hedits hs hmode s.generations
    (Service.runIdFor fresh r)
  have hanswer : ∃ after,
      { s with runId := Service.runIdFor fresh r }.answerAt host settings r .format =
        (.ok { status := 200
               content := .json (FormatResult.toJson { path, mode := .diff, edits, info }) },
          after) := by
    rw [answerAt_format hm]
    simp only [Service.format,hformat]
    exact ⟨_,rfl⟩
  obtain ⟨after,hanswer⟩ := hanswer
  exact ⟨info,by rw [serve_of_asks hr hanswer]; rfl⟩

theorem serve_interpret
    (hedits : Report.interpretColoured host settings.resolveLinks path report = .ok edits)
    (hr : r.Asks .interpret) (hm : r.model InterpretRequest.ofMembers = .ok ⟨path,report⟩)
    (s : Service) (fresh : Text) : (s.serve host settings fresh r).1 =
      .ofValue (Service.runIdFor fresh r) (InterpretResult.toJson ⟨path,edits⟩) := by
  have hanswer : { s with runId := Service.runIdFor fresh r }.answerAt host settings r .interpret =
      (.ok { status := 200, content := .json (InterpretResult.toJson ⟨path,edits⟩) },
        { s with runId := Service.runIdFor fresh r }) := by
    have hlift :=
      Report.interpretColoured_lift (α := CodePoint) host settings.resolveLinks path report
    rw [Service.answerAt,model_interpretPoints hm]
    simp only [Service.interpret,hlift,hedits,Except.map,Text.chars?_lift,mapM_chars?_lift]
  rw [serve_of_asks hr hanswer]
  rfl

end Web

namespace CommandLine

variable {host : Host} {settings : Settings} {path report : Text} {edits : List Edit}

theorem run_of_report (hreport : Paired report)
    (hedits : Report.interpretColoured host settings.resolveLinks path report = .ok edits)
    (hlines : ∀ e ∈ edits,
      Json.writableInt e.startLine = true ∧ Json.writableInt e.endLine = true)
    {words : List Text} {i : Invocation} {file : Text} (hread : Invocation.read words = .ok i)
    (hcommand : i.command = .edits) (hpath : i.path = path) (hfile : i.report = some file)
    (hmode : i.modeValue settings = .string OutputMode.diff.name)
    (hbytes : Document.readBytes host file = .ok (encode report)) :
    run host settings words =
      { stdout := line (Json.write (.indented 2) (.array (edits.map Edit.toJson)))
        status := .ok 0 } := by
  have hcollect : i.collect host settings = .ok (edits,none) :=
    Invocation.collect_of_report hreport hedits hpath hfile hmode hbytes
  have hresult : i.resultText host edits =
      .ok (line (Json.write (.indented 2) (.array (edits.map Edit.toJson)))) := by
    rw [Invocation.resultText,hcommand]
    exact Invocation.editsText_of_produced (.interpreted hedits) hlines
  exact run_of_result hread hcollect hresult

end CommandLine

section Agreement

variable {host : Host} {settings : Settings} {path report : Text} {edits : List Edit}

/-- A report with line endings of both kinds and an escape sequence. -/
def mixedReport : Text := "Diff of a.rs:\r\nDiff at line 2\n-b⏎\r\n+B\x1b[0m⏎\n".toList

theorem interpretColoured_mixedReport (host : Host) (resolveLinks : Bool) :
    Report.interpretColoured host resolveLinks "a.rs".toList mixedReport =
      .ok [⟨1,1,0,none,['B']⟩] := by
  have hstrip : Escape.strip mixedReport =
      "Diff of a.rs:\r\nDiff at line 2\n-b⏎\r\n+B⏎\n".toList := by
    cbv
  rw [Report.interpretColoured,hstrip]
  rfl

end Agreement

end FormatEdits
