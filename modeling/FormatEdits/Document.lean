import FormatEdits.Path

namespace FormatEdits.Document

open Text.Utf8 (Bytes)

inductive Fault
  | embeddedNull
  | file (fault : FileTree.Fault) (path : Text)
  | undecodable (fault : Text.Utf8.Fault)
  deriving DecidableEq, Repr

def Fault.message : Fault → Text
  | .embeddedNull => "embedded null byte".toList
  | .file fault path => FileTree.systemMessage fault.number fault.reason path
  | .undecodable fault => fault.message

/-- A path without empty names and dots; names that lead up stay. -/
def plainPath (path : Text) : Text :=
  let names := (path.fields '/').filter fun n => n ≠ [] ∧ n ≠ Path.here
  match Path.rootOf path ++ Text.joined '/' names with
  | [] => Path.here
  | plain => plain

def readBytes (host : Host) (path : Text) : Except Fault Bytes :=
  let path := plainPath path
  if Path.null ∈ path then .error .embeddedNull
  else (host.files.bytesAt host.directory path).mapError fun fault => .file fault path

/-- Every byte has to be part of a character. -/
def textOf (bytes : Bytes) : Except Fault Text :=
  match Text.Utf8.decode bytes with
  | .ok t => .ok t.unifyNewlines
  | .error fault => .error (.undecodable fault)

/-- The text of a document. -/
def read (host : Host) (path : Text) : Except Fault Text := do textOf (← readBytes host path)

/-- The text of a file that may start with a byte order mark; faults are counted from behind it. -/
def readMarked (host : Host) (path : Text) : Except Fault Text := do
  textOf (Text.Utf8.withoutMark (← readBytes host path))

/-- The text of a saved report, with replacements for bytes that are part of no character. -/
def readReport (host : Host) (path : Text) : Except Fault Text := do
  let bytes ← readBytes host path
  return (Text.Utf8.decodeLenient bytes).unifyNewlines

end FormatEdits.Document
