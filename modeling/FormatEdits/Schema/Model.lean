import FormatEdits.Edit
import FormatEdits.Schema.Scalar

namespace FormatEdits

inductive OutputMode
  | diff
  | display
  deriving DecidableEq, Repr

namespace OutputMode

def all : List OutputMode := [.diff,.display]

def name : OutputMode → Text
  | .diff => "diff".toList
  | .display => "display".toList

def ofName? (t : Text) : Option OutputMode := all.find? (·.name = t)

def read : Json → Schema.Checked OutputMode
  | .string s =>
    match ofName? s with
    | some mode => .valid mode
    | none => .reject .notMode (.string s)
  | input => .reject .notMode input

@[simp] theorem ofName?_name (mode : OutputMode) : ofName? mode.name = some mode := by
  cases mode <;> rfl

end OutputMode

open Schema (Checked field closed)

def Edit.fields : List Text :=
  ["range_start_line".toList,"range_end_line".toList,"start_character".toList,
    "end_character".toList,"replacement_text".toList]

def Edit.ofMembers (ms : Schema.Members) : Checked Edit :=
  closed ms fields <|
    Edit.mk <$> field ms "range_start_line".toList none Schema.integer <*>
      field ms "range_end_line".toList none Schema.integer <*>
      field ms "start_character".toList (some 0) Schema.natural <*>
      field ms "end_character".toList (some none) (Schema.optional Schema.natural) <*>
      field ms "replacement_text".toList (some []) Schema.string

def Edit.read : Json → Checked Edit
  | .object ms => Edit.ofMembers ms
  | input => .reject (.notModel "EditOperation".toList) input

def Edit.toJson (e : Edit) : Json :=
  .object
    [("range_start_line".toList,.int e.startLine),("range_end_line".toList,.int e.endLine),
      ("start_character".toList,.int e.startCharacter),
      ("end_character".toList,(e.endCharacter.map fun n : Nat => Json.int n).getD .null),
      ("replacement_text".toList,.string e.replacement)]

structure FormatRequest (α : Type := Char) where
  path : Text α
  mode : OutputMode := .diff
  deriving DecidableEq, Repr

/-- The request, with its path read by `text`. -/
def FormatRequest.ofMembersBy {α : Type} (text : Json → Checked (Text α)) (ms : Schema.Members) :
    Checked (FormatRequest α) :=
  closed ms ["path".toList,"mode".toList] <|
    FormatRequest.mk <$> field ms "path".toList none text <*>
      field ms "mode".toList (some .diff) OutputMode.read

def FormatRequest.ofMembers : Schema.Members → Checked FormatRequest := ofMembersBy Schema.string

def FormatRequest.toJson (r : FormatRequest) : Json :=
  .object [("path".toList,.string r.path),("mode".toList,.string r.mode.name)]

structure InterpretRequest (α : Type := Char) where
  path : Text α
  report : Text α
  deriving DecidableEq, Repr

/-- The request, with its texts read by `text`. -/
def InterpretRequest.ofMembersBy {α : Type} (text : Json → Checked (Text α)) (ms : Schema.Members) :
    Checked (InterpretRequest α) :=
  closed ms ["path".toList,"report".toList] <|
    InterpretRequest.mk <$> field ms "path".toList none text <*> field ms "report".toList none text

def InterpretRequest.ofMembers : Schema.Members → Checked InterpretRequest :=
  ofMembersBy Schema.string

def InterpretRequest.toJson (r : InterpretRequest) : Json :=
  .object [("path".toList,.string r.path),("report".toList,.string r.report)]

structure InterpretResult where
  path : Text
  edits : List Edit := []
  deriving DecidableEq, Repr

def InterpretResult.ofMembers (ms : Schema.Members) : Checked InterpretResult :=
  closed ms ["path".toList,"edits".toList] <|
    InterpretResult.mk <$> field ms "path".toList none Schema.string <*>
      field ms "edits".toList (some []) (Schema.listOf Edit.read)

def InterpretResult.toJson (r : InterpretResult) : Json :=
  .object [("path".toList,.string r.path),("edits".toList,.array (r.edits.map Edit.toJson))]

/-- What is known about the run that gave a result. -/
structure Meta where
  runId : Text := "unknown".toList
  formatter : Text := []
  generation : Int := 0
  generatedAt : Text := []
  deriving DecidableEq, Repr

def Meta.ofMembers (ms : Schema.Members) : Checked Meta :=
  closed ms ["run_id".toList,"formatter".toList,"generation".toList,"generated_at".toList] <|
    Meta.mk <$> field ms "run_id".toList (some "unknown".toList) Schema.string <*>
      field ms "formatter".toList (some []) Schema.string <*>
      field ms "generation".toList (some 0) Schema.integer <*>
      field ms "generated_at".toList (some []) Schema.string

def Meta.read : Json → Checked Meta
  | .object ms => Meta.ofMembers ms
  | input => .reject (.notModel "Meta".toList) input

def Meta.toJson (m : Meta) : Json :=
  .object
    [("run_id".toList,.string m.runId),("formatter".toList,.string m.formatter),
      ("generation".toList,.int m.generation),("generated_at".toList,.string m.generatedAt)]

/-- A result carries an advisory where the formatter could not be started, and is stale where a
newer request for the same document came in between. -/
structure FormatResult where
  path : Text
  mode : OutputMode := .diff
  edits : List Edit := []
  advisory : Option Text := none
  stale : Bool := false
  info : Meta := {}
  deriving DecidableEq, Repr

def FormatResult.ofMembers (ms : Schema.Members) : Checked FormatResult :=
  closed ms
    ["path".toList,"mode".toList,"edits".toList,"advisory".toList,"stale".toList,"meta".toList] <|
    FormatResult.mk <$> field ms "path".toList none Schema.string <*>
      field ms "mode".toList (some .diff) OutputMode.read <*>
      field ms "edits".toList (some []) (Schema.listOf Edit.read) <*>
      field ms "advisory".toList (some none) (Schema.optional Schema.string) <*>
      field ms "stale".toList (some false) Schema.boolean <*>
      field ms "meta".toList (some {}) Meta.read

def FormatResult.toJson (r : FormatResult) : Json :=
  .object
    [("path".toList,.string r.path),("mode".toList,.string r.mode.name),
      ("edits".toList,.array (r.edits.map Edit.toJson)),
      ("advisory".toList,(r.advisory.map Json.string).getD .null),
      ("stale".toList,.bool r.stale),("meta".toList,r.info.toJson)]

namespace Schema

/-- What is said about one kind of data, point by point. -/
abbrev Description := List (Text × Json)

/-- What is said about a field. One without a default has to be given, unless it is empty
otherwise. -/
structure FieldDescription where
  name : Text
  form : Description
  default : Option Json := none
  required : Bool := false
  titled : Bool := true

namespace Description

def kind (name : String) : Description := [("type".toList,.string name.toList)]

def fromZero : Description := ("minimum".toList,.int 0) :: kind "integer"

def orNull (d : Description) : Description :=
  [("anyOf".toList,.array [.object d,.object (kind "null")])]

def model (name : String) : Description :=
  [("$ref".toList,.string ("#/$defs/".toList ++ name.toList))]

def items (d : Description) : Description := ("items".toList,.object d) :: kind "array"

def capitalized : Text → Text
  | [] => []
  | c :: r => c.toUpper :: r

/-- The words of a name, each with a capital. -/
def titleOf (name : Text) : Text := Text.joined ' ' ((name.fields '_').map capitalized)

def ofField (f : FieldDescription) : Description :=
  f.form ++ ((f.default.map ("default".toList,·)).toList) ++
    if f.titled then [("title".toList,.string (titleOf f.name))] else []

def titled (name : String) : Text × Json := ("title".toList,.string name.toList)

/-- A model has no other fields than those described. -/
def ofModel (name : String) (fields : List FieldDescription) : Description :=
  let required := fields.filter (·.required)
  [("additionalProperties".toList,.bool false),
    ("properties".toList,.object (fields.map fun f => (f.name,.object (ofField f)))),titled name] ++
    kind "object" ++
    if required.isEmpty then []
    else [("required".toList,.array (required.map fun f => .string f.name))]

def withModels (models : List (String × Description)) (d : Description) : Description :=
  ("$defs".toList,.object (models.map fun m => (m.1.toList,.object m.2))) :: d

end Description

open Description

def outputModeDescription : Description :=
  [("enum".toList,.array (OutputMode.all.map fun mode => .string mode.name)),
    titled "OutputMode"] ++ kind "string"

def pathField : FieldDescription :=
  { name := "path".toList, form := kind "string", required := true }

def modeField : FieldDescription :=
  { name := "mode".toList, form := model "OutputMode"
    default := some (.string OutputMode.diff.name), titled := false }

def editDescription : Description :=
  ("description".toList,.string
    ("원본 문서 좌표(0-based line)의 치환 연산.\n\n".toList ++
      "end_character=None 은 end 라인의 내용 끝(라인 종결자 제외)까지를 뜻한다.".toList)) ::
    ofModel "EditOperation"
      [{ name := "range_start_line".toList, form := kind "integer", required := true },
        { name := "range_end_line".toList, form := kind "integer", required := true },
        { name := "start_character".toList, form := fromZero, default := some (.int 0) },
        { name := "end_character".toList, form := orNull fromZero, default := some .null },
        { name := "replacement_text".toList, form := kind "string", default := some (.string []) }]

def metaDescription : Description :=
  ofModel "Meta"
    [{ name := "run_id".toList, form := kind "string"
       default := some (.string "unknown".toList) },
      { name := "formatter".toList, form := kind "string", default := some (.string []) },
      { name := "generation".toList, form := kind "integer", default := some (.int 0) },
      { name := "generated_at".toList, form := kind "string", default := some (.string []) }]

def requestDescription : Description :=
  withModels [("OutputMode",outputModeDescription)] (ofModel "FormatRequest" [pathField,modeField])

def resultDescription : Description :=
  withModels
    [("EditOperation",editDescription),("Meta",metaDescription),
      ("OutputMode",outputModeDescription)]
    (ofModel "FormatResult"
      [pathField,modeField,
        { name := "edits".toList, form := items (model "EditOperation") },
        { name := "advisory".toList, form := orNull (kind "string"), default := some .null },
        { name := "stale".toList, form := kind "boolean", default := some (.bool false) },
        { name := "meta".toList, form := model "Meta", titled := false }])

/-- The descriptions of what a format request takes and gives. -/
def formatDescription : Json :=
  .object
    [("request".toList,.object requestDescription),("response".toList,.object resultDescription)]

end Schema
end FormatEdits
