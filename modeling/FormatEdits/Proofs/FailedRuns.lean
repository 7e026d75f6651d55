import FormatEdits.CommandLine.Program
import FormatEdits.Proofs.Formatter
import FormatEdits.Proofs.Web.Requests

namespace FormatEdits

open Web (Service)

section Surfaces

variable {host : Host} {settings : Settings} {executable path : Text} {mode : OutputMode}
  {s : Formatter.Started} {fault : Formatter.Fault}

/-- A response that tells how a formatter has failed, under the id of the request's run. -/
def Web.Response.ofFault (runId : Text) (fault : Formatter.Fault) : Web.Response :=
  { Web.jsonResponse 422 [("detail".toList,.string fault.message),
      ("stderr".toList,.string fault.stderr),("run_id".toList,.string runId)] with
    runId := some runId }

theorem Web.serve_of_endsBadly (hhost : host.NullFree) (hpath : Path.null ∉ path)
    (h : Formatter.Launches host settings ⟨executable,mode,path⟩ s)
    (hends : Formatter.EndsBadly settings.timeLimit s.program fault) {r : Request}
    (hr : r.Asks .format) (hm : r.model FormatRequest.ofMembers = .ok ⟨path,mode⟩)
    (service : Service) (fresh : Text) :
    (service.serve host settings fresh r).1 = .ofFault (Service.runIdFor fresh r) fault := by
  let runId := Service.runIdFor fresh r
  have hmode : Session.modeOf settings (.string mode.name) = .ok mode := by cases mode <;> rfl
  have hformat := Session.format_of_endsBadly hhost hpath h hends hmode service.generations runId
  have hanswer : ∃ after, { service with runId }.answerAt host settings r .format =
      (.ok (jsonResponse 422 [("detail".toList,.string fault.message),
        ("stderr".toList,.string fault.stderr),("run_id".toList,.string runId)]),after) := by
    rw [answerAt_format hm]
    simp only [Service.format,hformat,Except.map,resultResponse,report,
      Formatter.toolStderr?_of_endsBadly hends]
    exact ⟨_,rfl⟩
  obtain ⟨after,hanswer⟩ := hanswer
  rw [serve_of_asks hr hanswer]
  rfl

theorem CommandLine.run_of_endsBadly (hhost : host.NullFree) (hpath : Path.null ∉ path)
    (h : Formatter.Launches host settings ⟨executable,mode,path⟩ s)
    (hends : Formatter.EndsBadly settings.timeLimit s.program fault) {words : List Text}
    {i : Invocation} (hread : Invocation.read words = .ok i) (hi : i.path = path)
    (hreport : i.report = none) (hmode : i.modeValue settings = .string mode.name) :
    run host settings words = { stderr := line fault.message, status := .ok 1 } := by
  have hknown : OutputMode.ofValue (.string mode.name) = .ok mode := by cases mode <;> rfl
  have hasked : Session.modeOf settings (.string mode.name) = .ok mode := by cases mode <;> rfl
  have hcollect : i.collect host settings = .error (.formatter fault) := by
    rw [Invocation.collect,hmode,hknown,hreport,hi]
    simp only [Option.filter,bind,Except.bind,
      Session.format_of_endsBadly hhost hpath h hends hasked]
  rw [run,hread]
  simp only [Invocation.run,hcollect,Invocation.failed,Formatter.toolStderr?_of_endsBadly hends,
    List.nil_append]
  rfl

end Surfaces

/-- All that users are told of a formatter's run is how it failed: calls fail with it, whichever
generation they have; requests are answered with it; and of the program only the failure is printed,
not on the output but beside it. -/
structure TellsFailure (host : Host) (settings : Settings) (path : Text) (mode : OutputMode)
    (fault : Formatter.Fault) : Prop where
  calls : ∀ (g : Generations) (call : Call) (runId : Text), call.path = path → call.mode = mode →
    Session.complete host settings g runId call = .error (.formatter fault)
  formats : ∀ (g : Generations) (runId : Text) (value : Json),
    Session.modeOf settings value = .ok mode →
      (Session.format host settings g runId path value).1 = .error (.formatter fault)
  responses : ∀ (service : Service) (fresh : Text) (r : Web.Request), r.Asks .format →
    (r.model FormatRequest.ofMembers = .ok ⟨path,mode⟩ ∨
      r.Carries (FormatRequest.toJson ⟨path,mode⟩)) →
        (service.serve host settings fresh r).1 = .ofFault (Service.runIdFor fresh r) fault
  printouts : ∀ (words : List Text) (i : CommandLine.Invocation),
    CommandLine.Invocation.read words = .ok i → i.path = path → i.report = none →
      i.modeValue settings = .string mode.name → CommandLine.run host settings words =
        { stdout := [], stderr := CommandLine.line fault.message, status := .ok 1 }

theorem tellsFailure_of_endsBadly {host : Host} {settings : Settings} {executable path : Text}
    {mode : OutputMode} {s : Formatter.Started} {fault : Formatter.Fault} (hhost : host.NullFree)
    (hpath : Path.null ∉ path) (h : Formatter.Launches host settings ⟨executable,mode,path⟩ s)
    (hends : Formatter.EndsBadly settings.timeLimit s.program fault) :
    TellsFailure host settings path mode fault where
  calls := by
    rintro g call runId rfl rfl
    exact Session.complete_of_endsBadly h hpath hends g runId
  formats g runId value hmode := Session.format_of_endsBadly hhost hpath h hends hmode g runId
  responses service fresh r hr hbody :=
    Web.serve_of_endsBadly hhost hpath h hends hr (hbody.elim id Web.model_formatRequest) service
      fresh
  printouts words i hread hi hreport hmode :=
    CommandLine.run_of_endsBadly hhost hpath h hends hread hi hreport hmode

end FormatEdits
