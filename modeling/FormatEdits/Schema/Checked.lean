import FormatEdits.Json.Reader

namespace FormatEdits.Schema

/-- One step into data: to a member, or to an item of a list. -/
inductive Step
  | member (name : Text)
  | item (index : Nat)
  deriving DecidableEq, Repr

inductive Cause
  | missing
  | unknownMember
  | notInteger
  | unreadableInteger
  | overlongInteger
  | fractionalInteger
  | infiniteInteger
  | negative
  | notString
  | notBoolean
  | unreadableBoolean
  | notNumber
  | unreadableNumber
  | notMode
  | notList
  | notModel (name : Text)
  | notObject
  | unreadableJson (fault : Json.Fault)
  deriving DecidableEq, Repr

/-- The data that the issue is about comes with it. -/
structure Issue where
  cause : Cause
  path : List Step
  input : Json

/-- The identifier of a cause. -/
def Cause.code : Cause → Text
  | .missing => "missing".toList
  | .unknownMember => "extra_forbidden".toList
  | .notInteger => "int_type".toList
  | .unreadableInteger => "int_parsing".toList
  | .overlongInteger => "int_parsing_size".toList
  | .fractionalInteger => "int_from_float".toList
  | .infiniteInteger => "finite_number".toList
  | .negative => "greater_than_equal".toList
  | .notString => "string_type".toList
  | .notBoolean => "bool_type".toList
  | .unreadableBoolean => "bool_parsing".toList
  | .notNumber => "float_type".toList
  | .unreadableNumber => "float_parsing".toList
  | .notMode => "enum".toList
  | .notList => "list_type".toList
  | .notModel _ => "model_type".toList
  | .notObject => "model_attributes_type".toList
  | .unreadableJson _ => "json_invalid".toList

def Cause.message : Cause → Text
  | .missing => "Field required".toList
  | .unknownMember => "Extra inputs are not permitted".toList
  | .notInteger => "Input should be a valid integer".toList
  | .unreadableInteger =>
    "Input should be a valid integer, unable to parse string as an integer".toList
  | .overlongInteger =>
    "Unable to parse input string as an integer, exceeded maximum size".toList
  | .fractionalInteger =>
    "Input should be a valid integer, got a number with a fractional part".toList
  | .infiniteInteger => "Input should be a finite number".toList
  | .negative => "Input should be greater than or equal to 0".toList
  | .notString => "Input should be a valid string".toList
  | .notBoolean => "Input should be a valid boolean".toList
  | .unreadableBoolean => "Input should be a valid boolean, unable to interpret input".toList
  | .notNumber => "Input should be a valid number".toList
  | .unreadableNumber =>
    "Input should be a valid number, unable to parse string as a number".toList
  | .notMode => "Input should be 'diff' or 'display'".toList
  | .notList => "Input should be a valid list".toList
  | .notModel name =>
    "Input should be a valid dictionary or instance of ".toList ++ name
  | .notObject => "Input should be a valid dictionary or object to extract fields from".toList
  | .unreadableJson _ => "JSON decode error".toList

/-- What else is known about a cause. -/
def Cause.context : Cause → List (Text × Json)
  | .negative => [("ge".toList,.int 0)]
  | .notMode => [("expected".toList,.string "'diff' or 'display'".toList)]
  | .notModel name => [("class_name".toList,.string name)]
  | .unreadableJson fault => [("error".toList,.string fault.problem.message)]
  | _ => []

def Step.toJson : Step → Json
  | .member name => .string name
  | .item index => .int index

def Issue.under (step : Step) (i : Issue) : Issue := { i with path := step :: i.path }

inductive Checked (α : Type)
  | valid (value : α)
  | invalid (issues : List Issue)

abbrev Members := List (Text × Json)

namespace Checked

def reject {α : Type} (cause : Cause) (input : Json) : Checked α := .invalid [⟨cause,[],input⟩]

def map {α β : Type} (f : α → β) : Checked α → Checked β
  | .valid x => .valid (f x)
  | .invalid is => .invalid is

/-- Gives a function its next argument; the issues of both are kept. -/
def apply {α β : Type} : Checked (α → β) → Checked α → Checked β
  | .valid f, .valid x => .valid (f x)
  | .valid _, .invalid is => .invalid is
  | .invalid is, .valid _ => .invalid is
  | .invalid is, .invalid js => .invalid (is ++ js)

instance : Applicative Checked where
  pure := .valid
  map := map
  seq f x := apply f (x ())

def under {α : Type} (step : Step) : Checked α → Checked α
  | .valid x => .valid x
  | .invalid is => .invalid (is.map (Issue.under step))

/-- Further issues come behind those of the check. -/
def andThen {α : Type} (x : Checked α) (issues : List Issue) : Checked α :=
  match x, issues with
  | x, [] => x
  | .valid _, is => .invalid is
  | .invalid js, is => .invalid (js ++ is)

/-- A further test of a value. -/
def filter {α β : Type} (x : Checked α) (test : α → Checked β) : Checked β :=
  match x with
  | .valid x => test x
  | .invalid is => .invalid is

end Checked

/-- The field of an object, or its default where the object has none. -/
def field {α : Type} (members : Members) (name : Text) (default : Option α)
    (read : Json → Checked α) : Checked α :=
  match members.lookup name, default with
  | some value, _ => (read value).under (.member name)
  | none, some value => .valid value
  | none, none => .invalid [⟨.missing,[.member name],.object members⟩]

/-- Members that are no fields are not permitted. -/
def closed {α : Type} (members : Members) (fields : List Text) (x : Checked α) : Checked α :=
  x.andThen ((members.filter fun m => !fields.contains m.1).map fun m =>
    ⟨.unknownMember,[.member m.1],m.2⟩)

/-- Data that may be left empty. -/
def optional {α : Type} (read : Json → Checked α) (input : Json) : Checked (Option α) :=
  if input.isNull then .valid none else (read input).map some

def readItems {α : Type} (read : Json → Checked α) (index : Nat) : List Json → Checked (List α)
  | [] => .valid []
  | item :: items =>
    List.cons <$> (read item).under (.item index) <*> readItems read (index + 1) items

def listOf {α : Type} (read : Json → Checked α) : Json → Checked (List α)
  | .array items => readItems read 0 items
  | input => .reject .notList input

end FormatEdits.Schema
