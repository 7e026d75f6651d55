import FormatEdits.Number
import FormatEdits.Text.Quoted

namespace FormatEdits

inductive Json
  | null
  | bool (b : Bool)
  | int (n : Int)
  | float (x : Binary64)
  | string (s : Text)
  /-- A string that is not of characters alone. -/
  | unpaired (s : Text CodePoint)
  | array (items : List Json)
  | object (members : List (Text × Json))

namespace Json

def get? : Json → Text → Option Json
  | .object members, name => (members.find? (·.1 = name)).map (·.2)
  | _, _ => none

def ofPoints (s : Text CodePoint) : Json :=
  match s.chars? with
  | some s => .string s
  | none => .unpaired s

@[simp] theorem ofPoints_lift (s : Text) : ofPoints s.lift = .string s := by simp [ofPoints]

def isNull : Json → Bool
  | .null => true
  | _ => false

/-- A name that is given again keeps its place and takes the later value. -/
def putMember (members : List (Text × Json)) (name : Text) (value : Json) : List (Text × Json) :=
  if members.any (·.1 = name) then members.map fun m => if m.1 = name then (name,value) else m
  else members ++ [(name,value)]

mutual

def shown : Json → Text
  | .null => "None".toList
  | .bool b => if b then "True".toList else "False".toList
  | .int n => Text.ofInt n
  | .float x => x.text
  | .string s => Text.quoted s
  | .unpaired s => Text.quotedPoints s
  | .array [] => "[]".toList
  | .array (item :: items) => '[' :: shown item ++ shownItems items ++ [']']
  | .object [] => ['\x7b','\x7d']
  | .object ((name,value) :: members) =>
    '\x7b' :: Text.quoted name ++ ": ".toList ++ shown value ++ shownMembers members ++ ['\x7d']

def shownItems : List Json → Text
  | [] => []
  | item :: items => ", ".toList ++ shown item ++ shownItems items

def shownMembers : List (Text × Json) → Text
  | [] => []
  | (name,value) :: members =>
    ", ".toList ++ Text.quoted name ++ ": ".toList ++ shown value ++ shownMembers members

end

/-- Nothing, zero, and what holds nothing count as absent where a default stands ready. -/
def isAbsent : Json → Bool
  | .null => true
  | .bool b => !b
  | .int n => n == 0
  | .float x => x.toInt? == some 0
  | .string s => s.isEmpty
  | .unpaired s => s.isEmpty
  | .array items => items.isEmpty
  | .object members => members.isEmpty

/-- Only the quote, the backslash and the control characters are escaped. -/
def escaped (c : Char) : Text :=
  if c = '"' ∨ c = '\\' then ['\\',c]
  else if c = '\n' then ['\\','n']
  else if c = '\r' then ['\\','r']
  else if c = '\t' then ['\\','t']
  else if c = Char.ofNat 8 then ['\\','b']
  else if c = Char.ofNat 12 then ['\\','f']
  else if c.toNat < 0x20 then '\\' :: 'u' :: Text.hexDigits 4 c.toNat
  else [c]

def writeString (s : Text) : Text := '"' :: s.flatMap escaped ++ ['"']

/-- A surrogate that stands alone is written by its unit. -/
def escapedPoint : CodePoint → Text
  | .char c => escaped c
  | .surrogate s => '\\' :: 'u' :: Text.hexDigits 4 s.unit

def writePoints (s : Text CodePoint) : Text := '"' :: s.flatMap escapedPoint ++ ['"']

/-- Numbers that are none, and those without bound, are written as names. -/
def writeFloat : Binary64 → Text
  | .nan => "NaN".toList
  | .infinity negative => if negative then "-Infinity".toList else "Infinity".toList
  | x => x.text

/-- What stands between two parts of a value: nothing on one line, a new line with its indentation
otherwise. -/
structure Layout where
  indent : Option Nat
  deriving DecidableEq, Repr

namespace Layout

def compact : Layout := ⟨none⟩

def indented (width : Nat) : Layout := ⟨some width⟩

def newLine (l : Layout) (depth : Nat) : Text :=
  match l.indent with
  | none => []
  | some width => '\n' :: List.replicate (depth * width) ' '

def colon (l : Layout) : Text := if l.indent.isSome then [':',' '] else [':']

end Layout

mutual

def writeAt (l : Layout) (depth : Nat) : Json → Text
  | .null => "null".toList
  | .bool b => if b then "true".toList else "false".toList
  | .int n => Text.ofInt n
  | .float x => writeFloat x
  | .string s => writeString s
  | .unpaired s => writePoints s
  | .array [] => "[]".toList
  | .array (item :: items) =>
    '[' :: l.newLine (depth + 1) ++ writeAt l (depth + 1) item ++ writeItems l (depth + 1) items ++
      l.newLine depth ++ [']']
  | .object [] => ['\x7b','\x7d']
  | .object ((name,value) :: members) =>
    '\x7b' :: l.newLine (depth + 1) ++ writeString name ++ l.colon ++ writeAt l (depth + 1) value ++
      writeMembers l (depth + 1) members ++ l.newLine depth ++ ['\x7d']

def writeItems (l : Layout) (depth : Nat) : List Json → Text
  | [] => []
  | item :: items => ',' :: l.newLine depth ++ writeAt l depth item ++ writeItems l depth items

def writeMembers (l : Layout) (depth : Nat) : List (Text × Json) → Text
  | [] => []
  | (name,value) :: members =>
    ',' :: l.newLine depth ++ writeString name ++ l.colon ++ writeAt l depth value ++
      writeMembers l depth members

end

def write (l : Layout) (v : Json) : Text := writeAt l 0 v

/-- Whether a whole number has no more digits than can be read back. -/
def writableInt (n : Int) : Bool := n.natAbs < Nat.pow 10 Text.digitLimit

mutual

/-- Whether all whole numbers of a value can be read back. -/
def writable : Json → Bool
  | .int n => writableInt n
  | .array items => writableItems items
  | .object members => writableMembers members
  | _ => true

def writableItems : List Json → Bool
  | [] => true
  | item :: items => writable item && writableItems items

def writableMembers : List (Text × Json) → Bool
  | [] => true
  | (_,value) :: members => writable value && writableMembers members

end

def isPlainNumber : Binary64 → Bool
  | .nan => false
  | .infinity _ => false
  | _ => true

mutual

/-- Whether a value can be sent: no number of it is written as a name, which other readers do not
know, and its strings are of characters alone. -/
def portable : Json → Bool
  | .float x => isPlainNumber x
  | .unpaired _ => false
  | .array items => portableItems items
  | .object members => portableMembers members
  | _ => true

def portableItems : List Json → Bool
  | [] => true
  | item :: items => portable item && portableItems items

def portableMembers : List (Text × Json) → Bool
  | [] => true
  | (_,value) :: members => portable value && portableMembers members

end

end Json
end FormatEdits
