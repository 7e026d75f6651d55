import FormatEdits.Text.Encoding

namespace FormatEdits

open Text.Utf8 (Bytes)

/-- How a program ends: by itself, or by a signal. -/
inductive Ending
  | exit (code : Nat)
  | signal (number : Nat)
  deriving DecidableEq, Repr

/-- A formatter that can be run. One that echoes writes each of its arguments between angle
brackets before anything else; `busySeconds` pass before it ends. -/
structure Program where
  echoesArguments : Bool := false
  stdout : Bytes := []
  stderr : Bytes := []
  ending : Ending := .exit 0
  busySeconds : Nat := 0
  deriving DecidableEq, Repr

inductive Entry
  | directory
  | file (bytes : Bytes) (executable : Bool)
  | program (p : Program)
  | link (target : Text)
  deriving DecidableEq, Repr

/-- The names from the root down. -/
abbrev Place := List Text

structure FileTree where
  entries : List (Place × Entry) := []
  deriving DecidableEq, Repr

namespace FileTree

def entry? (files : FileTree) (place : Place) : Option Entry :=
  if place = [] then some .directory else (files.entries.find? (·.1 = place)).map (·.2)

def linkTarget? (files : FileTree) (place : Place) : Option Text :=
  match files.entry? place with
  | some (.link target) => some target
  | _ => none

def linkCount (files : FileTree) : Nat :=
  (files.entries.filter fun e => match e.2 with
    | .link _ => true
    | _ => false).length

/-- The entry takes the place of what was there. -/
def set (files : FileTree) (place : Place) (e : Entry) : FileTree :=
  ⟨(place,e) :: files.entries.filter (·.1 ≠ place)⟩

/-- Directories come to be on the way to a place, where nothing is yet. -/
def withDirectories (files : FileTree) (place : Place) : FileTree :=
  ((List.range (place.length + 1)).map place.take).foldl (fun files above =>
    if (files.entry? above).isSome then files else files.set above .directory) files

/-- Puts an entry at a place below existing or new directories. -/
def put (files : FileTree) (place : Place) (e : Entry) : FileTree :=
  (files.withDirectories place.dropLast).set place e

inductive Fault
  | notFound
  | notDirectory
  | isDirectory
  | tooManyLinks
  | nameTooLong
  deriving DecidableEq, Repr

def nameLimit : Nat := 255

def pathLimit : Nat := 4095

def byteLength (t : Text) : Nat := (Text.Utf8.encode t).length

/-- No more links than this are followed in one look-up. -/
def linkLimit : Nat := 40

/-- Walks names from a place; `enter` continues at a link's place with its target's names and
those still to come. -/
def walk (files : FileTree) (enter : Place → List Text → Except Fault Place) (here : Place) :
    List Text → Except Fault Place
  | [] => .ok here
  | name :: rest =>
    if files.entry? here ≠ some .directory then .error .notDirectory
    else if name = [] ∨ name = ['.'] then walk files enter here rest
    else if name = ['.','.'] then walk files enter here.dropLast rest
    else if nameLimit < byteLength name then .error .nameTooLong
    else match files.entry? (here ++ [name]) with
      | none => .error .notFound
      | some (.link target) =>
        enter (if target.head? = some '/' then [] else here) (target.fields '/' ++ rest)
      | some _ => walk files enter (here ++ [name]) rest

def walkLinks (files : FileTree) : Nat → Place → List Text → Except Fault Place
  | 0 => files.walk fun _ _ => .error .tooManyLinks
  | links + 1 => files.walk (walkLinks files links)

/-- The place that a path names, seen from a directory. -/
def locate (files : FileTree) (directory : Place) (path : Text) : Except Fault Place :=
  if path = [] then .error .notFound
  else if pathLimit < byteLength path then .error .nameTooLong
  else files.walkLinks linkLimit (if path.head? = some '/' then [] else directory) (path.fields '/')

/-- The entry that a path names; it is no link. -/
def lookUp (files : FileTree) (directory : Place) (path : Text) : Except Fault Entry := do
  let place ← files.locate directory path
  match files.entry? place with
  | some e => .ok e
  | none => .error .notFound

/-- The bytes of the file that a path names; the text of a program is not kept. -/
def bytesAt (files : FileTree) (directory : Place) (path : Text) :
    Except Fault Text.Utf8.Bytes := do
  match ← files.lookUp directory path with
  | .file bytes _ => .ok bytes
  | .program _ => .ok []
  | .directory => .error .isDirectory
  | .link _ => .error .notFound

/-- Whether a path names something that can be run. -/
def isRunnable (files : FileTree) (directory : Place) (path : Text) : Bool :=
  match files.lookUp directory path with
  | .ok (.file _ executable) => executable
  | .ok (.program _) => true
  | _ => false

def isFile (files : FileTree) (directory : Place) (path : Text) : Bool :=
  match files.lookUp directory path with
  | .ok (.file _ _) => true
  | .ok (.program _) => true
  | _ => false

/-- The system's number of a fault. -/
def Fault.number : Fault → Nat
  | .notFound => 2
  | .notDirectory => 20
  | .isDirectory => 21
  | .nameTooLong => 36
  | .tooManyLinks => 40

def Fault.reason : Fault → Text
  | .notFound => "No such file or directory".toList
  | .notDirectory => "Not a directory".toList
  | .isDirectory => "Is a directory".toList
  | .nameTooLong => "File name too long".toList
  | .tooManyLinks => "Too many levels of symbolic links".toList

/-- A system error with the name that it is about. -/
def systemMessage (number : Nat) (reason name : Text) : Text :=
  "[Errno ".toList ++ Text.ofNat number ++ "] ".toList ++ reason ++ ": ".toList ++ name.quoted

end FileTree

/-- `homes` lists the home directories of other users by name. -/
structure Host where
  files : FileTree := {}
  directory : Place := []
  environment : List (Text × Text) := []
  homes : List (Text × Text) := []
  deriving DecidableEq, Repr

namespace Host

def valueOf? (host : Host) (name : Text) : Option Text := host.environment.lookup name

end Host
end FormatEdits
