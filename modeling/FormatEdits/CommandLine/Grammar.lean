import FormatEdits.Text.Quoted

namespace FormatEdits.CommandLine

/-- A switch asks for help, is noted, or takes a value: one of the choices where it has any. -/
inductive Action
  | help
  | flag
  | value (choices : Option (List Text))
  deriving DecidableEq, Repr

structure Switch where
  name : Text
  spellings : List Text
  action : Action
  note : Text
  deriving DecidableEq, Repr

/-- A single word, or a command with all the words behind it; each command comes with its note. -/
inductive Operand
  | word (name note : Text)
  | command (name : Text) (commands : List (Text × Text))
  deriving DecidableEq, Repr

/-- The summary is what the program's help starts with. -/
structure Grammar where
  program : Text
  summary : Text := []
  switches : List Switch
  operand : Operand
  deriving DecidableEq, Repr

inductive Misuse
  | ambiguous (word : Text) (spellings : List Text)
  | unexpectedValue (switch : Switch) (value : Text)
  | missingValue (switch : Switch)
  | unknownChoice (label value : Text) (choices : List Text)
  | missingOperand (name : Text)
  | unrecognized (words : List Text)
  deriving DecidableEq, Repr

/-- Texts in a row, with a mark between neighbours. -/
def listed (mark : Text) (ts : List Text) : Text := mark.intercalate ts

def braced (ts : List Text) : Text := '\x7b' :: Text.joined ',' ts ++ ['\x7d']

namespace Switch

def label (s : Switch) : Text := Text.joined '/' s.spellings

def takesValue (s : Switch) : Bool :=
  match s.action with
  | .value _ => true
  | _ => false

/-- A spelling with what stands for the value behind it. -/
def shownAs (s : Switch) (spelling : Text) : Text :=
  match s.action with
  | .value (some choices) => spelling ++ ' ' :: braced choices
  | .value none => spelling ++ ' ' :: s.name.map Char.toUpper
  | _ => spelling

end Switch

namespace Operand

def name : Operand → Text
  | .word name _ => name
  | .command name _ => name

def shown : Operand → Text
  | .word name _ => name
  | .command _ commands => braced (commands.map (·.1)) ++ " ...".toList

end Operand

def Grammar.switchOf? (g : Grammar) (spelling : Text) : Option Switch :=
  g.switches.find? (·.spellings.contains spelling)

def Misuse.message : Misuse → Text
  | .ambiguous word spellings =>
    "ambiguous option: ".toList ++ word ++ " could match ".toList ++
      listed ", ".toList spellings
  | .unexpectedValue switch value =>
    "argument ".toList ++ switch.label ++ ": ignored explicit argument ".toList ++
      Text.quoted value
  | .missingValue switch => "argument ".toList ++ switch.label ++ ": expected one argument".toList
  | .unknownChoice label value choices =>
    "argument ".toList ++ label ++ ": invalid choice: ".toList ++ Text.quoted value ++
      " (choose from ".toList ++ listed ", ".toList (choices.map Text.quoted) ++ [')']
  | .missingOperand name => "the following arguments are required: ".toList ++ name
  | .unrecognized words => "unrecognized arguments: ".toList ++ Text.joined ' ' words

/-- A label, and the note on it. -/
structure Row where
  indent : Nat
  label : Text
  note : Text
  deriving DecidableEq, Repr

namespace Help

/-- No line is longer. -/
def lineWidth : Nat := 78

/-- Notes start here at the latest, and at least two places behind their label. -/
def lastColumn : Nat := 24

def column (rows : List Row) : Nat :=
  min lastColumn ((rows.map fun r => r.indent + r.label.length).foldl max 0 + 2)

def spaces (n : Nat) : Text := List.replicate n ' '

/-- Fills lines with words; a word that does not fit starts the next line. -/
def fill (width : Nat) (line : Text) : List Text → List Text
  | [] => [line]
  | word :: words =>
    if line.length + 1 + word.length ≤ width then fill width (line ++ ' ' :: word) words
    else line :: fill width word words

def filled (width : Nat) (note : Text) : List Text :=
  match note.fields ' ' with
  | [] => []
  | word :: words => fill width word words

/-- A label that reaches into the notes' column stands on a line of its own. -/
def rowLines (column : Nat) (r : Row) : List Text :=
  let label := spaces r.indent ++ r.label
  if r.note = [] then [label]
  else
    let notes := filled (lineWidth - column) r.note
    let below := notes.map (spaces column ++ ·)
    if label.length + 2 ≤ column then
      match notes with
      | [] => [label]
      | first :: rest =>
        (label ++ spaces (column - label.length) ++ first) :: rest.map (spaces column ++ ·)
    else label :: below

def lines (ls : List Text) : Text := ls.flatMap (· ++ ['\n'])

end Help

def Operand.rows : Operand → List Row
  | .word name note => [⟨2,name,note⟩]
  | .command _ commands =>
    ⟨2,braced (commands.map (·.1)),[]⟩ :: commands.map fun c => ⟨4,c.1,c.2⟩

def Switch.row (s : Switch) : Row :=
  ⟨2,listed ", ".toList (s.spellings.map s.shownAs),s.note⟩

namespace Grammar

/-- Each switch by its first spelling, and the operand. -/
def usage (g : Grammar) : Text :=
  let switches := g.switches.filterMap fun s =>
    s.spellings.head?.map fun spelling => '[' :: s.shownAs spelling ++ [']']
  "usage: ".toList ++ Text.joined ' ' (g.program :: switches ++ [g.operand.shown]) ++ ['\n']

def help (g : Grammar) : Text :=
  let operandRows := g.operand.rows
  let switchRows := g.switches.map Switch.row
  let column := Help.column (operandRows ++ switchRows)
  let part (title : Text) (rows : List Row) :=
    Help.lines ([] :: title :: rows.flatMap (Help.rowLines column))
  g.usage ++ (if g.summary = [] then [] else Help.lines [[],g.summary]) ++
    part "positional arguments:".toList operandRows ++ part "options:".toList switchRows

end Grammar
end FormatEdits.CommandLine
