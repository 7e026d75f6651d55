import FormatEdits.Document
import FormatEdits.Schema.Scalar
import FormatEdits.Text.Case

namespace FormatEdits

namespace EnvFile

/-- A name without an equals sign has no value. -/
structure Assignment where
  name : Text
  value : Option Text
  deriving DecidableEq, Repr

def isInlineBlank (c : Char) : Bool := c ≠ '\n' && c ≠ '\r' && Text.isBlank c

def isLineEnd (c : Char) : Bool := c == '\n' || c == '\r'

def skipBlanks (t : Text) : Text := t.dropWhile isInlineBlank

/-- The word in front of a name that shells need, with the blanks after it. -/
def skipExport (t : Text) : Text :=
  match t.after? "export".toList with
  | some r => if r.takeWhile isInlineBlank = [] then t else skipBlanks r
  | none => t

def isNameChar (c : Char) : Bool := c ≠ '=' && c ≠ '#' && !Text.isBlank c

/-- A name, in single quotes or plain; a comment has none. -/
def readName? (t : Text) : Option (Option Text × Text) :=
  match t with
  | '#' :: _ => some (none,t)
  | c :: r =>
    if c = Char.ofNat 39 then
      let name := r.takeWhile (· ≠ c)
      match name, r.dropWhile (· ≠ c) with
      | _ :: _, _ :: rest => some (some name,rest)
      | _, _ => none
    else
      let name := t.takeWhile isNameChar
      if name = [] then none else some (some name,t.dropWhile isNameChar)
  | [] => none

/-- The text up to the closing quote. The character after a backslash does not close it. -/
def readQuoted? (quote : Char) : Text → Option (Text × Text)
  | [] => none
  | '\\' :: c :: r =>
    (readQuoted? quote r).map fun (value,rest) => ('\\' :: c :: value,rest)
  | c :: r =>
    if c = quote then some ([],r)
    else (readQuoted? quote r).map fun (value,rest) => (c :: value,rest)

def doubleQuotedEscape? (c : Char) : Option Char :=
  if c = '\\' ∨ c = '"' ∨ c = Char.ofNat 39 then some c
  else if c = 'a' then some (Char.ofNat 7)
  else if c = 'b' then some (Char.ofNat 8)
  else if c = 'f' then some (Char.ofNat 12)
  else if c = 'n' then some '\n'
  else if c = 'r' then some '\r'
  else if c = 't' then some '\t'
  else if c = 'v' then some (Char.ofNat 11)
  else none

def singleQuotedEscape? (c : Char) : Option Char :=
  if c = '\\' ∨ c = Char.ofNat 39 then some c else none

def unescape (named? : Char → Option Char) : Text → Text
  | '\\' :: c :: r =>
    match named? c with
    | some d => d :: unescape named? r
    | none => '\\' :: unescape named? (c :: r)
  | c :: r => c :: unescape named? r
  | [] => []

/-- The part of a plain value before a comment, which needs a blank in front of it. -/
def beforeComment : Text → Text
  | [] => []
  | c :: r =>
    if Text.isBlank c ∧ (Text.trimStart r).head? = some '#' then []
    else c :: beforeComment r

/-- The value behind an equals sign, of which `blanks` come first. They do not belong to it, but
set a comment off. -/
def readValue? (blanks t : Text) : Option (Text × Text) :=
  match t with
  | '"' :: r =>
    (readQuoted? '"' r).map fun (value,rest) => (unescape doubleQuotedEscape? value,rest)
  | c :: r =>
    if c = Char.ofNat 39 then
      (readQuoted? c r).map fun (value,rest) => (unescape singleQuotedEscape? value,rest)
    else
      let line := t.takeWhile (!isLineEnd ·)
      some (Text.trim (beforeComment (blanks ++ line)),t.dropWhile (!isLineEnd ·))
  | [] => some ([],[])

def skipComment (t : Text) : Text :=
  match skipBlanks t with
  | '#' :: r => r.dropWhile (!isLineEnd ·)
  | _ => t

/-- The text after the end of a line, if nothing but blanks comes before it. -/
def skipLineEnd? (t : Text) : Option Text :=
  match skipBlanks t with
  | [] => some []
  | '\r' :: '\n' :: r => some r
  | c :: r => if isLineEnd c then some r else none

def skipLine (t : Text) : Text :=
  match t.dropWhile (!isLineEnd ·) with
  | [] => []
  | _ :: r => r

/-- An assignment and the text after its line; where the line is none, the text from the place at
which that showed. -/
def readAssignment (t : Text) : Except Text (Option Assignment × Text) :=
  let t := skipExport t
  match readName? t with
  | none => .error t
  | some (name,r) =>
    let r := skipBlanks r
    let value : Except Text (Option Text × Text) := match r with
      | '=' :: r =>
        let rest := skipBlanks r
        match readValue? (r.takeWhile isInlineBlank) rest with
        | some (value,rest) => .ok (some value,rest)
        | none => .error rest
      | r => .ok (none,r)
    match value with
    | .error rest => .error rest
    | .ok (value,r) =>
      let r := skipComment r
      match skipLineEnd? r with
      | some rest => .ok (name.map (⟨·,value⟩),rest)
      | none => .error r

/-- All assignments in order; reading goes on behind a line that is none. -/
def assignments (t : Text) : List Assignment :=
  match Text.trimStart t with
  | [] => []
  | c :: r =>
    let (found,rest) := match readAssignment (c :: r) with
      | .ok (found,rest) => (found,rest)
      | .error rest => (none,skipLine rest)
    found.toList ++ if rest.length < t.length then assignments rest else []
  termination_by t.length

/-- A reference to a variable, behind its dollar sign: the name, what stands in for a missing
value, and the text after it. -/
def reference? : Text → Option (Text × Text × Text)
  | '\x7b' :: r =>
    let name := r.takeWhile fun c => c ≠ '\x7d' && c ≠ ':'
    match r.dropWhile fun c => c ≠ '\x7d' && c ≠ ':' with
    | '\x7d' :: rest => some (name,[],rest)
    | ':' :: '-' :: r =>
      match r.dropWhile (· ≠ '\x7d') with
      | _ :: rest => some (name,r.takeWhile (· ≠ '\x7d'),rest)
      | [] => none
    | _ => none
  | _ => none

/-- The value with every reference replaced. -/
def expand (valueOf? : Text → Option Text) (t : Text) : Text :=
  match t with
  | [] => []
  | c :: r =>
    match c, reference? r with
    | '$', some (name,instead,rest) =>
      (valueOf? name).getD instead ++ if rest.length < r.length then expand valueOf? rest else []
    | _, _ => c :: expand valueOf? r
  termination_by t.length

def assign (found : List (Text × Option Text)) (name : Text) (value : Option Text) :
    List (Text × Option Text) :=
  if found.any (·.1 = name) then found.map fun f => if f.1 = name then (name,value) else f
  else found ++ [(name,value)]

/-- The variables that a file gives; the last assignment of a name counts. A reference means the
file's own variable so far, or else that of the environment. -/
def settingsIn (host : Host) (t : Text) : List (Text × Option Text) :=
  (assignments t).foldl (fun found a =>
    let valueOf? (name : Text) : Option Text := match found.lookup name with
      | some value => some (value.getD [])
      | none => host.valueOf? name
    assign found a.name (a.value.map (expand valueOf?))) []

end EnvFile

/-- The formatter's name is for messages, its path for starting it. Without a time limit there is
no end to waiting. The default mode is checked when it is used. -/
structure Settings where
  formatterName : Text := "rustfmt".toList
  formatterPath : Text := "rustfmt".toList
  timeLimit : Option Binary64 := none
  defaultMode : Text := "diff".toList
  resolveLinks : Bool := true
  deriving DecidableEq, Repr

namespace Settings

def fields : List Text :=
  ["formatter_name".toList,"formatter_path".toList,"formatter_timeout_sec".toList,
    "default_mode".toList,"resolve_symlinks".toList]

def ofMembers (ms : Schema.Members) : Schema.Checked Settings :=
  Schema.closed ms fields <|
    Settings.mk <$>
      Schema.field ms "formatter_name".toList (some "rustfmt".toList) Schema.string <*>
      Schema.field ms "formatter_path".toList (some "rustfmt".toList) Schema.string <*>
      Schema.field ms "formatter_timeout_sec".toList (some none) (Schema.optional Schema.number) <*>
      Schema.field ms "default_mode".toList (some "diff".toList) Schema.string <*>
      Schema.field ms "resolve_symlinks".toList (some true) Schema.boolean

def envFileName : Text := ".env".toList

/-- The variables of the environment file, none where there is no such file. -/
def envFileVariables (host : Host) : Except Document.Fault (List (Text × Option Text)) :=
  match host.files.bytesAt host.directory envFileName with
  | .error _ => .ok []
  | .ok _ => (Document.readMarked host envFileName).map (EnvFile.settingsIn host)

/-- Names in any case; an empty value is no value, and the last one counts. -/
def byLowerName (given : List (Text × Option Text)) : List (Text × Option Text) :=
  (given.filter (·.2 ≠ some [])).foldl (fun found v => EnvFile.assign found v.1.lowerCase v.2) []

def valueIn (found : List (Text × Option Text)) (name : Text) : Option Text :=
  (found.lookup name).join

/-- The first member of the name, which may be written in any case. -/
def givenAs? (given : Schema.Members) (name : Text) : Option Json :=
  (given.find? (·.1.lowerCase = name)).map (·.2)

/-- The members that all sources together give. Of unknown names those of the environment file
come first; unknown names in the environment mean nothing here. -/
def members (host : Host) (given : Schema.Members) : Except Document.Fault Schema.Members := do
  let file := byLowerName (← envFileVariables host)
  let environment := byLowerName (host.environment.map fun v => (v.1,some v.2))
  let known := fields.filterMap fun name =>
    ((givenAs? given name) <|> (valueIn environment name).map Json.string <|>
      (valueIn file name).map Json.string).map (name,·)
  let unknownInFile := file.filterMap fun v =>
    if fields.contains v.1 then none else v.2.map fun value => (v.1,Json.string value)
  let unknownGiven := given.filter fun m => !fields.contains m.1.lowerCase
  return known ++ unknownGiven.foldl (fun ms m => Json.putMember ms m.1 m.2) unknownInFile

/-- The settings for a run. -/
def load (host : Host) (given : Schema.Members) :
    Except Document.Fault (Schema.Checked Settings) :=
  (members host given).map ofMembers

/-- Told where the formatter cannot be started. -/
def notFoundMessage (s : Settings) : Text :=
  "The \"".toList ++ s.formatterName ++
    "\" command is not available. Make sure it is installed.".toList

end Settings
end FormatEdits
