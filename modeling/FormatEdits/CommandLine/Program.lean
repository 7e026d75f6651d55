import FormatEdits.CommandLine.Reading
import FormatEdits.Session

namespace FormatEdits.CommandLine

inductive Command
  | edits
  | preview
  deriving DecidableEq, Repr

namespace Command

def all : List Command := [.edits,.preview]

def name : Command → Text
  | .edits => "edits".toList
  | .preview => "preview".toList

def note : Command → Text
  | .edits => "Print edits as JSON".toList
  | .preview => "Print formatted document".toList

def ofName? (t : Text) : Option Command := all.find? (·.name = t)

end Command

def programName : Text := "fmtdiff".toList

def helpSwitch : Switch :=
  { name := "help".toList, spellings := ["-h".toList,"--help".toList], action := .help
    note := "show this help message and exit".toList }

def programGrammar : Grammar :=
  { program := programName
    summary := "Formatter diff -> text edits".toList
    switches :=
      [helpSwitch,
        { name := "verbose".toList, spellings := ["--verbose".toList,"-v".toList], action := .flag
          note := "Debug logging".toList }]
    operand := .command "command".toList (Command.all.map fun c => (c.name,c.note)) }

def Command.grammar (c : Command) : Grammar :=
  { program := programName ++ ' ' :: c.name
    switches :=
      [helpSwitch,
        { name := "report".toList, spellings := ["--report".toList], action := .value none
          note := "Read formatter output from this file instead of running it".toList },
        { name := "mode".toList, spellings := ["--mode".toList]
          action := .value (some (OutputMode.all.map OutputMode.name))
          note := "Formatter write mode".toList }]
    operand := .word "path".toList "Source file to format".toList }

/-- What the program is asked to do. A mode may be asked for without saying which. To be verbose
is to log more, which has no effect on what is told here. -/
structure Invocation where
  command : Command
  path : Text
  report : Option Text := none
  mode : Option (Option Text) := none
  verbose : Bool := false
  deriving DecidableEq, Repr

/-- Words that nothing takes are reported together, those before the command first. -/
def Invocation.read (ts : List Text) : Except Stop Invocation := do
  let (above,name,rest) ← programGrammar.read ts
  match Command.ofName? name with
  | none =>
    .error (.misuse programGrammar
      (.unknownChoice programGrammar.operand.name name (Command.all.map Command.name)))
  | some command =>
    let (below,path,_) ← command.grammar.read rest
    match above.extras ++ below.extras with
    | [] =>
      return { command, path
               report := (below.given? "report".toList).join
               mode := below.given? "mode".toList
               verbose := above.switches.any (·.1 = "verbose".toList) }
    | extras => .error (.misuse programGrammar (.unrecognized extras))

/-- What a run printed, and its exit status; a failure may also leave it without one. Of the log
nothing is kept, though its records go to `stderr` too. -/
structure Printout where
  stdout : Text := []
  stderr : Text := []
  status : Except Failure Nat

def line (t : Text) : Text := t ++ ['\n']

/-- A misuse is told together with the usage. -/
def Stop.printout : Stop → Printout
  | .help g => { stdout := g.help, status := .ok 0 }
  | .misuse g m =>
    { stderr := g.usage ++ line (g.program ++ ": error: ".toList ++ m.message), status := .ok 2 }

namespace Invocation

/-- The value that names the mode; no value is shown as an empty list. -/
def modeValue (i : Invocation) (settings : Settings) : Json :=
  match i.mode with
  | none => .string settings.defaultMode
  | some none => .array []
  | some (some name) => .string name

/-- The edits, and what there is to say about them. An empty report name stands for none. -/
def collect (host : Host) (settings : Settings) (i : Invocation) :
    Except Failure (List Edit × Option Text) := do
  let mode ← OutputMode.ofValue (i.modeValue settings)
  match i.report.filter (· ≠ []) with
  | some report =>
    let output ← (Document.readReport host report).mapError .document
    return (← Session.editsFromOutput host settings i.path output mode,none)
  | none =>
    let result ←
      (Session.format host settings {} "unknown".toList i.path (.string mode.name)).1
    return (result.edits,result.advisory)

def editsText (edits : List Edit) : Except Failure Text :=
  let v := Json.array (edits.map Edit.toJson)
  if v.writable then .ok (line (Json.write (.indented 2) v)) else .error .unwritableNumber

/-- The text for the given edits. -/
def resultText (host : Host) (i : Invocation) (edits : List Edit) : Except Failure Text :=
  match i.command with
  | .edits => editsText edits
  | .preview => do
    let document ← (Document.read host i.path).mapError .document
    (Edit.apply document edits).mapError .edit

/-- A formatter's failure is told and ends the run; any other failure leaves it. -/
def failed (advisory : Text) (failure : Failure) : Printout :=
  match failure.toolStderr? with
  | some _ => { stderr := advisory ++ line failure.message, status := .ok 1 }
  | none => { stderr := advisory, status := .error failure }

/-- The result is printed when all of it is known. -/
def run (host : Host) (settings : Settings) (i : Invocation) : Printout :=
  match i.collect host settings with
  | .error failure => failed [] failure
  | .ok (edits,advisory) =>
    let advisory := (advisory.map line).getD []
    match i.resultText host edits with
    | .error failure => failed advisory failure
    | .ok stdout => { stdout, stderr := advisory, status := .ok 0 }

end Invocation

def run (host : Host) (settings : Settings) (ts : List Text) : Printout :=
  match Invocation.read ts with
  | .error stop => stop.printout
  | .ok i => i.run host settings

end FormatEdits.CommandLine
