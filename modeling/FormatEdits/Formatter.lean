import FormatEdits.Path
import FormatEdits.Schema.Model

namespace FormatEdits.Formatter

structure Command where
  executable : Text
  mode : OutputMode
  path : Text
  deriving DecidableEq, Repr

namespace Command

def modeOption (mode : OutputMode) : Text := "--write-mode=".toList ++ mode.name

/-- What the executable is given. -/
def arguments (c : Command) : List Text := [modeOption c.mode,c.path]

def words (c : Command) : List Text := c.executable :: c.arguments

end Command

def searchList (host : Host) : Text :=
  (host.valueOf? "PATH".toList).getD "/bin:/usr/bin".toList

def searchDirectories (host : Host) : List Text := (searchList host).fields ':'

/-- A name with a null character names nothing. -/
def canRun (host : Host) (path : Text) : Bool :=
  Path.null ∉ path && host.files.isRunnable host.directory path

def isFile (host : Host) (path : Text) : Bool :=
  Path.null ∉ path && host.files.isFile host.directory path

/-- A name with a slash is not searched for; an empty list of directories has nothing in it. -/
def search? (host : Host) (name : Text) : Option Text :=
  if '/' ∈ name then if canRun host name then some name else none
  else if searchList host = [] then none
  else ((searchDirectories host).map (Path.join · name)).find? (canRun host)

/-- The configured name where nothing is found: running it tells. -/
def find (host : Host) (configured : Text) : Except Path.Fault Text := do
  let name ← Path.expandHome host configured
  if '/' ∈ name && isFile host name then return name
  return (search? host name).getD configured

open Text.Utf8 (Bytes)

/-- The path of an interpreter, and what it is given in front of the script's path. -/
structure Interpreter where
  path : Text
  argument : Option Text := none
  deriving DecidableEq, Repr

namespace Script

/-- Only the head of a file is looked at. -/
def headLength : Nat := 256

def opening : Bytes := [0x23,0x21]

def lineFeed : UInt8 := 0x0A

def isBlank (b : UInt8) : Bool := b == 0x20 || b == 0x09

/-- A null byte ends a name as a blank does. -/
def endsName (b : UInt8) : Bool := isBlank b || b == 0

def trimEnd (bytes : Bytes) : Bytes := (bytes.reverse.dropWhile isBlank).reverse

/-- The first line behind the opening. Without a line feed, a short file ends as if a null byte
came next; in a long one the name of the interpreter has to end within the head. -/
def firstLine? (bytes : Bytes) : Option Bytes :=
  let rest := (bytes.take headLength).drop opening.length
  if rest.contains lineFeed then some (trimEnd (rest.takeWhile (· ≠ lineFeed)))
  else if bytes.length < headLength then some (rest ++ [0])
  else if (rest.dropWhile isBlank).any endsName then some (trimEnd rest.dropLast)
  else none

/-- The interpreter that a file names; a file that names none is no script. -/
def interpreter? (bytes : Bytes) : Option Interpreter := do
  if ¬ opening.isPrefixOf bytes then none
  let line := (← firstLine? bytes).dropWhile isBlank
  if line = [] then none
  let path := Text.Utf8.decodeLenient (line.takeWhile (!endsName ·))
  match line.dropWhile (!endsName ·) with
  | b :: rest =>
    if isBlank b then
      let argument := (rest.dropWhile isBlank).takeWhile (· ≠ 0)
      return { path, argument := some (Text.Utf8.decodeLenient argument) }
    else return { path }
  | [] => return { path }

end Script

/-- A time limit, in whole seconds or not. -/
inductive Limit
  | whole (seconds : Int)
  | exact (seconds : Binary64)
  deriving DecidableEq, Repr

def Limit.text : Limit → Text
  | .whole n => Text.ofInt n
  | .exact x => x.text

/-- A limit of nothing is over at once, even for a program that ends at once. -/
def Limit.endsBefore (seconds : Nat) : Limit → Bool
  | .whole n => n ≤ 0 || n < seconds
  | .exact x => x.endsBefore seconds

/-- Why a file cannot be started: it is not there, it may not be run, or it is no program. -/
inductive StartFault
  | file (fault : FileTree.Fault)
  | denied
  | noProgram
  deriving DecidableEq, Repr

def StartFault.number : StartFault → Nat
  | .file fault => fault.number
  | .denied => 13
  | .noProgram => 8

def StartFault.reason : StartFault → Text
  | .file fault => fault.reason
  | .denied => "Permission denied".toList
  | .noProgram => "Exec format error".toList

/-- A formatter that is missing or may not be run is not found; one that ends with a failure
rejects its input. -/
inductive Fault
  | notFound (executable : Text)
  | unstartable (fault : StartFault) (executable : Text)
  | path (fault : Path.Fault)
  | expired (limit : Limit)
  | rejected (status : Int) (stderr : Text)
  deriving DecidableEq, Repr

def Fault.message : Fault → Text
  | .notFound executable => "Formatter executable not found: ".toList ++ executable
  | .unstartable fault executable => FileTree.systemMessage fault.number fault.reason executable
  | .path fault => fault.message
  | .expired limit => "Formatter timed out after ".toList ++ limit.text ++ ['s']
  | .rejected _ _ => "Cannot format due to syntax errors".toList

/-- A program that was started, with what it is given in front of the arguments proper. -/
structure Started where
  program : Program
  leading : List Text := []
  deriving DecidableEq, Repr

/-- An interpreter may be a script again, up to this many deep. -/
def scriptLimit : Nat := 4

/-- Starts what a path names. In the place of a script its interpreter is started, with the path of
the script among its arguments. -/
def startWithin (host : Host) (scripts : Nat) (path : Text) : Except StartFault Started :=
  match host.files.lookUp host.directory path with
  | .ok (.program p) => .ok ⟨p,[]⟩
  | .ok (.file bytes true) =>
    match Script.interpreter? bytes, scripts with
    | none, _ => .error .noProgram
    | some _, 0 => .error (.file .tooManyLinks)
    | some i, scripts + 1 =>
      (startWithin host scripts i.path).map fun s =>
        { s with leading := s.leading ++ i.argument.toList ++ [path] }
  | .ok _ => .error .denied
  | .error fault => .error (.file fault)

def startAt (host : Host) (path : Text) : Except StartFault Started :=
  startWithin host scriptLimit path

def isMissing : StartFault → Bool
  | .file .notFound => true
  | .file .notDirectory => true
  | _ => false

/-- The first program on the way; of the faults, the first that is more than a missing file, or
else the last. -/
def startFirst (host : Host) : List Text → Except StartFault Started
  | [] => .error (.file .notFound)
  | path :: paths =>
    match startAt host path, paths with
    | .ok s, _ => .ok s
    | .error fault, [] => .error fault
    | .error fault, paths =>
      match startFirst host paths with
      | .ok s => .ok s
      | .error later => .error (if isMissing fault then later else fault)

def start (host : Host) (executable : Text) : Except StartFault Started :=
  if '/' ∈ executable then startAt host executable
  else startFirst host ((searchDirectories host).map (Path.join · executable))

/-- Zero for success, else the exit code or the negated number of the signal. -/
def statusOf : Ending → Int
  | .exit code => (code % 256 : Nat)
  | .signal number => -(number : Int)

/-- What a program has written to its output when it ends. -/
def writtenBy (p : Program) (arguments : List Text) : Bytes :=
  (if p.echoesArguments then
    arguments.flatMap fun a => Text.Utf8.encode ('<' :: a ++ ['>']) else []) ++ p.stdout

/-- The text that a program writes, if it ends in time and well. -/
def judge (limit : Option Limit) (arguments : List Text) (p : Program) : Except Fault Text :=
  match limit.filter (·.endsBefore p.busySeconds) with
  | some limit => .error (.expired limit)
  | none =>
    let status := statusOf p.ending
    if status ≠ 0 then .error (.rejected status (Text.Utf8.decodeLenient p.stderr))
    else .ok (Text.Utf8.decodeLenient (writtenBy p arguments))

/-- Runs a formatter once; what it wrote before it failed is dropped. -/
def run (host : Host) (limit : Option Limit) (c : Command) : Except Fault Text :=
  if c.words.any (Path.null ∈ ·) then .error (.path .embeddedNull)
  else match start host c.executable with
    | .ok s => judge limit (s.leading ++ c.arguments) s.program
    | .error (.file .notFound) => .error (.notFound c.executable)
    | .error .denied => .error (.notFound c.executable)
    | .error fault => .error (.unstartable fault c.executable)

end FormatEdits.Formatter
