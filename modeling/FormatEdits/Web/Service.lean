import FormatEdits.RunId
import FormatEdits.Session
import FormatEdits.Web.Framework

namespace FormatEdits.Web

/-- What the service keeps from one request to the next. -/
structure Service where
  generations : Generations := {}
  runId : Text := "unknown".toList
  deriving DecidableEq, Repr

/-- Why a request gets no response of its own: a failure that is none of the formatter's, or a
response that cannot be written. -/
inductive Unhandled
  | failure (f : Failure)
  | unwritable

/-- An issue as it is reported, with the data it is about. -/
def issueDetail (i : Schema.Issue) : Json :=
  let context := i.cause.context
  .object <|
    [("type".toList,.string i.cause.code),
      ("loc".toList,.array (i.path.map Schema.Step.toJson)),
      ("msg".toList,.string i.cause.message),("input".toList,i.input)] ++
    if context.isEmpty then [] else [("ctx".toList,.object context)]

/-- Refused data is shown back, so it has to be such as can be written. -/
def refuse (runId : Text) : Refusal → Except Unhandled Response
  | .issues is =>
    if is.all (·.input.portable) then
      .ok (jsonResponse 422
        [("detail".toList,.array (is.map issueDetail)),("run_id".toList,.string runId)])
    else .error .unwritable
  | .unreadable => .ok (detailResponse 400 "There was an error parsing the body")
  | .noData => .error .unwritable

/-- Only the formatter's own failures are reported. -/
def report (runId : Text) (f : Failure) : Except Unhandled Response :=
  match f.toolStderr? with
  | some stderr =>
    .ok (jsonResponse 422
      [("detail".toList,.string f.message),("stderr".toList,.string stderr),
        ("run_id".toList,.string runId)])
  | none => .error (.failure f)

/-- The response to a request that was carried out, or failed. -/
def resultResponse (runId : Text) : Except Failure Json → Except Unhandled Response
  | .ok v => .ok { status := 200, content := .json v }
  | .error f => report runId f

namespace Service

def format (host : Host) (settings : Settings) (s : Service) (r : FormatRequest) :
    Except Unhandled Response × Service :=
  let (result,generations) :=
    Session.format host settings s.generations s.runId r.path (.string r.mode.name)
  (resultResponse s.runId (result.map FormatResult.toJson),{ s with generations })

/-- The path and the report may hold surrogates that stand alone; a result that holds one cannot be
sent. -/
def interpret (host : Host) (settings : Settings) (s : Service) (r : InterpretRequest CodePoint) :
    Except Unhandled Response :=
  match Report.interpretColoured host settings.resolveLinks r.path r.report with
  | .error fault => report s.runId (.report fault)
  | .ok edits =>
    match r.path.chars?, edits.mapM Edit.chars? with
    | some path, some edits =>
      .ok { status := 200, content := .json (InterpretResult.toJson ⟨path,edits⟩) }
    | _, _ => .error .unwritable

/-- The answer of an endpoint that was asked in its own way. Of a page only its place is known. A
document whose path holds a surrogate that stands alone is not looked into: no result could tell its
path. -/
def answerAt (host : Host) (settings : Settings) (s : Service) (r : Request) :
    Endpoint → Except Unhandled Response × Service
  | .health => (.ok (jsonResponse 200 [("ok".toList,.bool true)]),s)
  | .formatSchema => (.ok { status := 200, content := .json Schema.formatDescription },s)
  | .page _ => (.ok { status := 200, content := .plain [] },s)
  | .format =>
    match r.model (FormatRequest.ofMembersBy Schema.points) with
    | .error refusal => (refuse s.runId refusal,s)
    | .ok request =>
      match request.path.chars? with
      | some path => s.format host settings ⟨path,request.mode⟩
      | none => (.error .unwritable,s)
  | .interpret =>
    match r.model (InterpretRequest.ofMembersBy Schema.points) with
    | .error refusal => (refuse s.runId refusal,s)
    | .ok request => (s.interpret host settings request,s)

def answer (host : Host) (settings : Settings) (s : Service) (r : Request) :
    Except Unhandled Response × Service :=
  match r.route with
  | .endpoint e => s.answerAt host settings r e
  | .unknownPath => (.ok (detailResponse 404 "Not Found"),s)
  | .otherMethod => (.ok (detailResponse 405 "Method Not Allowed"),s)

def runIdHeader : Text := "X-Run-Id".toList

/-- The id that a request runs under: its own where it may be kept, else the fresh one. -/
def runIdFor (fresh : Text) (r : Request) : Text :=
  match RunId.resolve (r.header? runIdHeader) with
  | .kept id => id
  | .fresh => fresh

/-- Answers a request under its run id; a failure that nothing handles has one response, which
tells no more about it. -/
def serve (host : Host) (settings : Settings) (fresh : Text) (s : Service) (r : Request) :
    Response × Service :=
  let runId := runIdFor fresh r
  let (outcome,after) := { s with runId }.answer host settings r
  let after := { after with runId := s.runId }
  match outcome with
  | .ok response => ({ response with runId := some runId },after)
  | .error _ => (unhandledResponse,after)

/-- Serves requests in turn, each with a fresh id of its own. -/
def serveAll (host : Host) (settings : Settings) (s : Service) :
    List (Text × Request) → List Response × Service
  | [] => ([],s)
  | (fresh,r) :: requests =>
    let (response,s) := s.serve host settings fresh r
    let (responses,s) := s.serveAll host settings requests
    (response :: responses,s)

end Service
end FormatEdits.Web
