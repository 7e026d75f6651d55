import FormatEdits.CommandLine.Program

namespace FormatEdits.Main

def variableNames : List String :=
  ["HOME","PATH"] ++ Settings.fields.map fun name => String.ofList (name.map Char.toUpper)

def environmentNow : IO (List (Text × Text)) := do
  let found ← variableNames.mapM fun name => do
    return (← IO.getEnv name).map fun value => (name.toList,value.toList)
  return found.filterMap id

def placeOf (path : String) : Place :=
  (Text.fields '/' path.toList).filter (· ≠ [])

/-- Loads a file under its real place; a path that leads there through links becomes one. -/
def loadFile (host : Host) (path : Text) : IO Host := do
  try
    let bytes ← IO.FS.readBinFile (String.ofList path)
    let real := (← IO.FS.realPath (String.ofList path)).toString
    let files := host.files.put (placeOf real) (.file bytes.toList false)
    let place := placeOf (String.ofList (Path.absolute host.directory path))
    let files :=
      if place = placeOf real then files else files.put place (.link real.toList)
    return { host with files }
  catch _ => return host

def hostFor (paths : List Text) : IO Host := do
  let directory := placeOf (← IO.currentDir).toString
  let host : Host :=
    { files := ({} : FileTree).withDirectories directory
      directory, environment := ← environmentNow }
  paths.foldlM loadFile host

def pathsOf : Except CommandLine.Stop CommandLine.Invocation → List Text
  | .ok i => i.path :: i.report.toList
  | .error _ => []

/-- What is wrong with the settings, one line for each issue. -/
def issueLines (issues : List Schema.Issue) : String :=
  String.ofList <| issues.flatMap fun i =>
    Json.write .compact (.array (i.path.map Schema.Step.toJson)) ++ ": ".toList ++
      i.cause.message ++ ['\n']

def tellFailure (t : Text) : IO UInt32 := do
  IO.eprintln (String.ofList t)
  return 1

end FormatEdits.Main

open FormatEdits in
def main (args : List String) : IO UInt32 := do
  let words := args.map String.toList
  let host ← Main.hostFor (Settings.envFileName :: Main.pathsOf (CommandLine.Invocation.read words))
  match Settings.load host [] with
  | .error fault => Main.tellFailure fault.message
  | .ok (.invalid issues) =>
    IO.eprint (Main.issueLines issues)
    return 1
  | .ok (.valid settings) =>
    let printout := CommandLine.run host settings words
    IO.print (String.ofList printout.stdout)
    IO.eprint (String.ofList printout.stderr)
    match printout.status with
    | .ok status => return status.toUInt32
    | .error f => Main.tellFailure f.message
