import FormatEdits.Schema.Checked
import FormatEdits.Text.Encoding

/-!
The layer below the service: the web framework that it is built on, which is no part of it. What
is written here is taken from how that framework is known to behave, and the service relies on it:

* the path of a target alone leads to an endpoint, slashes at its end aside; another path, and a way
  in which an endpoint may not be asked, are answered without the service;
* a body is data only if its type says so, and an empty body is one that is missing; data that is no
  model is refused with the issues that stand in its way, which the service reports itself;
* a failure that the service does not report has one response, which bears no run id;
* pages about the service are at places of their own, and what they say is not looked into.
-/
namespace FormatEdits.Web

open Text.Utf8 (Bytes)

/-- The target is a reference as the client gives it. -/
structure Request where
  method : Text
  target : Text
  headers : List (Text × Text) := []
  body : Bytes := []
  deriving DecidableEq, Repr

inductive Content
  | json (v : Json)
  | plain (t : Text)

/-- Every response but that to an unhandled failure names the run that gave it. -/
structure Response where
  status : Nat
  content : Content
  runId : Option Text := none

def jsonResponse (status : Nat) (members : List (Text × Json)) : Response :=
  { status, content := .json (.object members) }

def detailResponse (status : Nat) (detail : String) : Response :=
  jsonResponse status [("detail".toList,.string detail.toList)]

def unhandledResponse : Response :=
  { status := 500, content := .plain "Internal Server Error".toList }

namespace Target

def isSchemeChar (c : Char) : Bool := c.isAlphanum || c == '+' || c == '.' || c == '-'

/-- A scheme starts with a letter. -/
def withoutScheme (t : Text) : Text :=
  match t.cutAt ':' with
  | (c :: scheme,some rest) => if c.isAlpha ∧ scheme.all isSchemeChar then rest else t
  | _ => t

def endsPath (c : Char) : Bool := c == '?' || c == '#'

/-- A host stands behind two slashes. -/
def withoutHost : Text → Text
  | '/' :: '/' :: r => r.dropWhile fun c => c ≠ '/' && !endsPath c
  | t => t

def pathPart (t : Text) : Text := (withoutHost (withoutScheme t)).takeWhile (!endsPath ·)

/-- Takes one more name of a path. A dot leads nowhere, two lead back. -/
def step (names : List Text) (name : Text) : List Text :=
  if name = ['.'] then names
  else if name = ['.','.'] then names.dropLast
  else names ++ [name]

def withoutDots (path : Text) : Text :=
  let names := Text.fields '/' (path.dropWhile (· = '/'))
  '/' :: Text.joined '/' (names.foldl step [])

/-- A percent sign with two hexadecimal digits stands for a byte. -/
def unescapedBytes : Text → Bytes
  | '%' :: a :: b :: r =>
    match Json.hexValue? a, Json.hexValue? b with
    | some high, some low => UInt8.ofNat (high * 16 + low) :: unescapedBytes r
    | _, _ => Text.Utf8.encodeChar '%' ++ unescapedBytes (a :: b :: r)
  | c :: r => Text.Utf8.encodeChar c ++ unescapedBytes r
  | [] => []

def unescaped (t : Text) : Text := Text.Utf8.decodeLenient (unescapedBytes t)

/-- The path that a reference leads to. Its escapes may be escaped themselves, once. -/
def path (reference : Text) : Text := unescaped (unescaped (withoutDots (pathPart reference)))

end Target

/-- Pages about the service itself, for readers and for their tools. -/
inductive Page
  | description
  | manual
  | signIn
  | reference
  deriving DecidableEq, Repr

namespace Page

def all : List Page := [.description,.manual,.signIn,.reference]

def path : Page → Text
  | .description => "/openapi.json".toList
  | .manual => "/docs".toList
  | .signIn => "/docs/oauth2-redirect".toList
  | .reference => "/redoc".toList

end Page

inductive Endpoint
  | page (p : Page)
  | health
  | formatSchema
  | format
  | interpret
  deriving DecidableEq, Repr

namespace Endpoint

def all : List Endpoint := Page.all.map .page ++ [.health,.formatSchema,.format,.interpret]

def path : Endpoint → Text
  | .page p => p.path
  | .health => "/health".toList
  | .formatSchema => "/schema/format".toList
  | .format => "/format".toList
  | .interpret => "/interpret".toList

/-- The ways in which an endpoint may be asked. -/
def methods : Endpoint → List Text
  | .page _ => ["GET".toList,"HEAD".toList]
  | .health => ["GET".toList]
  | .formatSchema => ["GET".toList]
  | .format => ["POST".toList]
  | .interpret => ["POST".toList]

/-- The endpoint at a path; slashes behind it do not matter, and neither does a line feed at its
end. -/
def atPath? (path : Text) : Option Endpoint :=
  let path := Text.dropFinal '\n' (Text.dropFinalWhile (· = '/') path)
  all.find? (·.path = path)

theorem atPath?_path (e : Endpoint) : atPath? e.path = some e := by
  cases e with
  | page p => cases p <;> rfl
  | _ => rfl

end Endpoint

/-- Where a request is passed on to. -/
inductive Route
  | endpoint (e : Endpoint)
  | unknownPath
  | otherMethod
  deriving DecidableEq, Repr

/-- A body that is no data cannot be reported, since it cannot be shown. -/
inductive Refusal
  | issues (is : List Schema.Issue)
  | unreadable
  | noData

namespace Refusal

def bodyStep : Schema.Step := .member "body".toList

def one (cause : Schema.Cause) (path : List Schema.Step) (input : Json) : Refusal :=
  .issues [⟨cause,bodyStep :: path,input⟩]

def missing : Refusal := one .missing [] .null

/-- A number of too many digits makes a body unreadable as a whole, and so does data that is nested
too deeply. -/
def ofFault (fault : Json.Fault) : Refusal :=
  match fault.problem with
  | .overlongNumber _ => .unreadable
  | .tooDeep => .unreadable
  | _ => one (.unreadableJson fault) [.item fault.position] (.object [])

end Refusal

namespace Request

def route (r : Request) : Route :=
  match Endpoint.atPath? (Target.path r.target) with
  | none => .unknownPath
  | some e => if e.methods.contains r.method then .endpoint e else .otherMethod

/-- The names of headers are the same in any case. -/
def header? (r : Request) (name : Text) : Option Text :=
  (r.headers.find? (·.1.lowered = name.lowered)).map (·.2)

/-- A content type without its parameters. -/
def mediaType (contentType : Text) : Text := (Text.trim (Text.cutAt ';' contentType).1).lowered

def isJsonType (contentType : Text) : Bool :=
  match Text.fields '/' (mediaType contentType) with
  | [kind,form] =>
    kind = "application".toList && (form = "json".toList || "+json".toList.isSuffixOf form)
  | _ => false

/-- Whether the body is to be read as data. -/
def hasData (r : Request) : Bool :=
  match r.header? "Content-Type".toList with
  | some contentType => isJsonType contentType
  | none => false

/-- The value in the body, in whatever form its text is encoded. -/
def value (r : Request) : Except Refusal Json :=
  match Text.ofBytes? r.body with
  | none => .error .unreadable
  | some t => (Json.read t).mapError Refusal.ofFault

/-- The members of the object in the body. -/
def members (r : Request) : Except Refusal Schema.Members :=
  if r.body = [] then .error .missing
  else if ¬ r.hasData then .error .noData
  else match r.value with
    | .error refusal => .error refusal
    | .ok (.object ms) => .ok ms
    | .ok v => .error (.one .notObject [] v)

/-- The model that the body holds. -/
def model {α : Type} (r : Request) (read : Schema.Members → Schema.Checked α) :
    Except Refusal α := do
  match read (← r.members) with
  | .valid x => .ok x
  | .invalid is => .error (.issues (is.map (Schema.Issue.under Refusal.bodyStep)))

end Request
end FormatEdits.Web
