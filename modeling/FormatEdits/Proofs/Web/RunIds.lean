import FormatEdits.Proofs.Session.Overtaking
import FormatEdits.Proofs.Web.Requests

namespace FormatEdits

theorem Session.runId_of_format {host : Host} {settings : Settings} {g : Generations}
    {runId path : Text} {mode : Json} {result : FormatResult}
    (h : (format host settings g runId path mode).1 = .ok result) : result.info.runId = runId := by
  rw [format] at h
  split at h
  · cases h
  · obtain ⟨_,_,rfl⟩ | ⟨_,_,_,_,rfl⟩ := finish_eq_ok.mp h
    · rfl
    · rfl

namespace Web

/-- The run ids that a body names: beside the details of what went wrong, or among what is known
about the run that gave a result. -/
def Content.runIds : Content → List Json
  | .json v =>
    (v.get? "run_id".toList).toList ++
      ((v.get? "meta".toList).bind (·.get? "run_id".toList)).toList
  | .plain _ => []

theorem runIds_formatResult (result : FormatResult) :
    (Content.json result.toJson).runIds = [.string result.info.runId] := rfl

theorem runIds_interpretResult (result : InterpretResult) :
    (Content.json result.toJson).runIds = [] := rfl

/-- The response names no other run than this one, and it names it where it tells what went wrong
with the request. -/
structure Response.TellsOf (runId : Text) (response : Response) : Prop where
  body : ∀ v ∈ response.content.runIds, v = .string runId
  reports : response.status = 422 → response.content.runIds = [.string runId]

section Bodies

variable {runId : Text} {response : Response}

theorem tellsOf_of_runIds_eq_nil (h : response.content.runIds = [])
    (hstatus : response.status ≠ 422) : response.TellsOf runId :=
  ⟨by simp [h],fun h422 => absurd h422 hstatus⟩

theorem tellsOf_of_runIds_eq (h : response.content.runIds = [.string runId]) :
    response.TellsOf runId :=
  ⟨by simp [h],fun _ => h⟩

theorem tellsOf_refuse {refusal : Refusal} (h : refuse runId refusal = .ok response) :
    response.TellsOf runId ∧ response.status ≠ 200 := by
  cases refusal with
  | issues is =>
    rw [refuse] at h
    split at h
    · cases h
      exact ⟨tellsOf_of_runIds_eq rfl,by simp [jsonResponse]⟩
    · cases h
  | unreadable =>
    cases h
    exact ⟨tellsOf_of_runIds_eq_nil rfl (by decide),by decide⟩
  | noData => cases h

theorem tellsOf_report {f : Failure} (h : report runId f = .ok response) :
    response.TellsOf runId ∧ response.status ≠ 200 := by
  rw [report] at h
  split at h
  · cases h
    exact ⟨tellsOf_of_runIds_eq rfl,by simp [jsonResponse]⟩
  · cases h

end Bodies

namespace Service

variable {host : Host} {settings : Settings} {s : Service} {r : Request} {response : Response}

theorem runIds_format {request : FormatRequest}
    (h : (s.format host settings request).1 = .ok response) :
    response.TellsOf s.runId ∧
      (response.status = 200 → response.content.runIds = [.string s.runId]) := by
  rw [format] at h
  cases hresult : (Session.format host settings s.generations s.runId request.path
      (.string request.mode.name)).1 with
  | error failure =>
    simp only [hresult,Except.map,resultResponse] at h
    obtain ⟨htells,hstatus⟩ := tellsOf_report h
    exact ⟨htells,fun h200 => absurd h200 hstatus⟩
  | ok result =>
    simp only [hresult,Except.map,resultResponse] at h
    cases h
    have hids := runIds_formatResult result
    rw [Session.runId_of_format hresult] at hids
    exact ⟨tellsOf_of_runIds_eq hids,fun _ => hids⟩

theorem tellsOf_interpret {request : InterpretRequest CodePoint}
    (h : s.interpret host settings request = .ok response) : response.TellsOf s.runId := by
  rw [interpret] at h
  split at h
  · exact (tellsOf_report h).1
  · split at h
    · cases h
      exact tellsOf_of_runIds_eq_nil (runIds_interpretResult _) (by simp)
    · cases h

theorem runIds_answerAt_format (h : (s.answerAt host settings r .format).1 = .ok response) :
    response.TellsOf s.runId ∧
      (response.status = 200 → response.content.runIds = [.string s.runId]) := by
  rw [answerAt] at h
  split at h
  · obtain ⟨htells,hstatus⟩ := tellsOf_refuse h
    exact ⟨htells,fun h200 => absurd h200 hstatus⟩
  · split at h
    · exact runIds_format h
    · cases h

/-- One case for each endpoint: no body names another run than the one in force. -/
theorem tellsOf_answerAt {e : Endpoint} (h : (s.answerAt host settings r e).1 = .ok response) :
    response.TellsOf s.runId := by
  cases e with
  | page _ | health | formatSchema =>
    cases h
    exact tellsOf_of_runIds_eq_nil rfl (by decide)
  | format => exact (runIds_answerAt_format h).1
  | interpret =>
    rw [answerAt] at h
    split at h
    · exact (tellsOf_refuse h).1
    · exact tellsOf_interpret h

theorem tellsOf_answer (h : (s.answer host settings r).1 = .ok response) :
    response.TellsOf s.runId := by
  rw [answer] at h
  cases hroute : r.route with
  | endpoint e =>
    rw [hroute] at h
    exact tellsOf_answerAt h
  | unknownPath | otherMethod =>
    rw [hroute] at h
    cases h
    exact tellsOf_of_runIds_eq_nil rfl (by decide)

end Service

/-- A request as the service gets it: the machine as it is by then, and the id that is made in case
the request brings none that may be kept. -/
structure Turn where
  host : Host
  fresh : Text
  request : Request

/-- The id that the request's own header settles, or else its own fresh one. -/
def Turn.runId (t : Turn) : Text := Service.runIdFor t.fresh t.request

/-- The response goes by the id of the request's turn, unless nothing more is told than that the
request has failed: in its header, wherever its body names a run, and always in the body of a
report and of a result. -/
structure Turn.AnsweredBy (t : Turn) (response : Response) : Prop where
  header : response.runId = some t.runId ∨ response = unhandledResponse
  body : ∀ v ∈ response.content.runIds, v = .string t.runId
  reports : response.status = 422 → response.content.runIds = [.string t.runId]
  results : t.request.Asks .format → response.status = 200 →
    response.content.runIds = [.string t.runId]

namespace Service

variable {host : Host} {settings : Settings} {s : Service}

/-- The responses to requests that come one after the other, each with the service as it is left. -/
def answers (settings : Settings) (s : Service) : List Turn → List (Response × Service)
  | [] => []
  | t :: turns =>
    let answer := s.serve t.host settings t.fresh t.request
    answer :: answers settings answer.2 turns

theorem serveAll_eq_answers (s : Service) (requests : List (Text × Request)) :
    (s.serveAll host settings requests).1 =
      (s.answers settings (requests.map fun q => ⟨host,q.1,q.2⟩)).map (·.1) := by
  induction requests generalizing s with
  | nil => rfl
  | cons q requests ih => exact congrArg (_ :: ·) (ih _)

/-- After a request the id is in force that was before, whatever has become of the request. -/
theorem runId_serve (s : Service) (t : Turn) :
    (s.serve t.host settings t.fresh t.request).2.runId = s.runId := by
  rw [serve]
  split
  split
  · rfl
  · rfl

theorem serve_of_answer_eq_ok {t : Turn} {response : Response}
    (h : ({ s with runId := t.runId }.answer t.host settings t.request).1 = .ok response) :
    (s.serve t.host settings t.fresh t.request).1 = { response with runId := some t.runId } := by
  rw [Turn.runId] at h
  simp only [serve,h]
  rfl

theorem serve_of_answer_eq_error {t : Turn} {unhandled : Unhandled}
    (h : ({ s with runId := t.runId }.answer t.host settings t.request).1 = .error unhandled) :
    (s.serve t.host settings t.fresh t.request).1 = unhandledResponse := by
  rw [Turn.runId] at h
  simp only [serve,h]

theorem answeredBy_serve (s : Service) (t : Turn) :
    t.AnsweredBy (s.serve t.host settings t.fresh t.request).1 := by
  cases hanswer : ({ s with runId := t.runId }.answer t.host settings t.request).1 with
  | error unhandled =>
    rw [serve_of_answer_eq_error hanswer]
    exact ⟨.inr rfl,by simp [unhandledResponse,Content.runIds],nofun,nofun⟩
  | ok response =>
    rw [serve_of_answer_eq_ok hanswer]
    have htells := tellsOf_answer hanswer
    refine ⟨.inl rfl,htells.body,htells.reports,?_⟩
    intro hasks h200
    rw [answer_of_asks hasks] at hanswer
    exact (runIds_answerAt_format hanswer).2 h200

/-- Each request of a sequence is answered under its own id, and leaves the id in force that was
before the first of them. -/
theorem answeredBy_answers (settings : Settings) (s : Service) (turns : List Turn) :
    List.Forall₂ (fun t answer => t.AnsweredBy answer.1 ∧ answer.2.runId = s.runId) turns
      (s.answers settings turns) := by
  induction turns generalizing s with
  | nil => exact .nil
  | cons t turns ih =>
    have hback : (s.serve t.host settings t.fresh t.request).2.runId = s.runId := runId_serve s t
    refine .cons ⟨answeredBy_serve s t,hback⟩ ?_
    rw [← hback]
    exact ih _

end Service

theorem Turn.AnsweredBy.eq_runId {t : Turn} {response : Response} {id : Text}
    (h : t.AnsweredBy response) (hid : response.runId = some id) : id = t.runId := by
  rcases h.header with hown | rfl
  · exact Option.some.inj (hid.symm.trans hown)
  · cases hid

theorem Turn.runId_congr {t u : Turn} (hfresh : t.fresh = u.fresh)
    (hheader : t.request.header? Service.runIdHeader = u.request.header? Service.runIdHeader) :
    t.runId = u.runId := by
  rw [runId,runId,Service.runIdFor,Service.runIdFor,hfresh,hheader]

theorem answeredBy_of_mem_zip {settings : Settings} {s : Service} {turns : List Turn} {t : Turn}
    {answer : Response × Service} (h : (t,answer) ∈ turns.zip (s.answers settings turns)) :
    t.AnsweredBy answer.1 :=
  (List.forall₂_iff_zip.mp (Service.answeredBy_answers settings s turns)).2 h |>.1

/-- A service goes by one id for each request, whatever is asked in between, on whatever machine,
and however it ends. Each response in a sequence has the id that its own request's header settles:
in its own header, and wherever its body names a run; and after each request the id is back that was
in force before. Where two requests agree in their own header and in the id made for them, their
responses cannot have different ids, whatever sequences they are in. -/
theorem one_runId_per_request (settings : Settings) (s : Service) (turns : List Turn) :
    List.Forall₂ (fun t answer => t.AnsweredBy answer.1 ∧ answer.2.runId = s.runId) turns
        (s.answers settings turns) ∧
      ∀ (settings' : Settings) (s' : Service) (turns' : List Turn) (t t' : Turn)
        (answer answer' : Response × Service), (t,answer) ∈ turns.zip (s.answers settings turns) →
          (t',answer') ∈ turns'.zip (s'.answers settings' turns') → t.fresh = t'.fresh →
            t.request.header? Service.runIdHeader = t'.request.header? Service.runIdHeader →
              ∀ id id', answer.1.runId = some id → answer'.1.runId = some id' → id = id' := by
  refine ⟨Service.answeredBy_answers settings s turns,?_⟩
  intro settings' s' turns' t t' answer answer' hmem hmem' hfresh hheader id id' hid hid'
  have hown := (answeredBy_of_mem_zip hmem).eq_runId hid
  have hother := (answeredBy_of_mem_zip hmem').eq_runId hid'
  rw [hown,hother]
  exact Turn.runId_congr hfresh hheader

/-- A request that nothing handles, one that is refused, and one without an id of its own; and the
refused one by itself. -/
theorem one_runId_per_request_of_refused :
    let asked (fresh : Text) (headers : List (Text × Text)) (body : Text.Utf8.Bytes) : Turn :=
      ⟨{},fresh,{ method := "POST".toList, target := "/format".toList, headers, body }⟩
    let unhandled := asked "f1".toList [("x-run-id".toList,"one".toList)] [0x7B]
    let refused := asked "f2".toList [("x-run-id".toList,"two".toList)] []
    let unnamed := asked "f3".toList [] []
    let turns := [unhandled,refused,unnamed]
    let answers := ({} : Service).answers {} turns
    let alone := ({} : Service).answers {} [refused]
    answers.map (fun answer => (answer.1.status,answer.1.runId)) =
        [(500,none),(422,some "two".toList),(422,some "f3".toList)] ∧
      List.Forall₂ (fun t answer => t.AnsweredBy answer.1 ∧ answer.2.runId = "unknown".toList) turns
        answers ∧
      ∀ answer answer', answers[1]? = some answer → alone[0]? = some answer' →
        ∀ id id', answer.1.runId = some id → answer'.1.runId = some id' → id = id' := by
  intro asked unhandled refused unnamed turns answers alone
  obtain ⟨howns,hagree⟩ := one_runId_per_request {} {} turns
  refine ⟨by decide +kernel,howns,?_⟩
  rintro answer answer' hanswer hanswer'
  have hmem : (refused,answer) ∈ turns.zip answers := by
    refine List.mem_of_getElem? (i := 1) ?_
    simp [turns,List.getElem?_zip_eq_some,hanswer]
  have hmem' : (refused,answer') ∈ [refused].zip alone := by
    refine List.mem_of_getElem? (i := 0) ?_
    simp [List.getElem?_zip_eq_some,hanswer']
  exact hagree {} {} [refused] refused refused answer answer' hmem hmem' rfl rfl

theorem answeredBy_serveAll (host : Host) (settings : Settings) (s : Service)
    (requests : List (Text × Request)) :
    List.Forall₂ (fun q => Turn.AnsweredBy ⟨host,q.1,q.2⟩) requests
      (s.serveAll host settings requests).1 := by
  have hanswers := Service.answeredBy_answers settings s (requests.map fun q => ⟨host,q.1,q.2⟩)
  rw [List.forall₂_map_left_iff] at hanswers
  rw [Service.serveAll_eq_answers,List.forall₂_map_right_iff]
  exact hanswers.imp fun _ _ h => h.1

end Web
end FormatEdits
