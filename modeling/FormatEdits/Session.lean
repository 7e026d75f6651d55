import FormatEdits.Formatter
import FormatEdits.Report
import FormatEdits.Settings

namespace FormatEdits

/-- A mode that is none comes as messages show it. A number is unwritable where it has more digits
than can be read back. -/
inductive Failure
  | unknownMode (shown : Text)
  | path (fault : Path.Fault)
  | report (fault : Report.Fault)
  | document (fault : Document.Fault)
  | formatter (fault : Formatter.Fault)
  | edit (fault : Edit.Fault)
  | unwritableNumber
  deriving DecidableEq, Repr

namespace Failure

def message : Failure → Text
  | .unknownMode shown => shown ++ " is not a valid OutputMode".toList
  | .path fault => fault.message
  | .report fault => fault.message
  | .document fault => fault.message
  | .formatter fault => fault.message
  | .edit fault => fault.message
  | .unwritableNumber =>
    "Exceeds the limit (4300 digits) for integer string conversion; ".toList ++
      "use sys.set_int_max_str_digits() to increase the limit".toList

/-- What the formatter itself wrote about its failure, where it is the formatter that failed. -/
def toolStderr? : Failure → Option Text
  | .formatter (.expired _) => some []
  | .formatter (.rejected _ stderr) => some stderr
  | _ => none

end Failure

/-- The mode that a value names. -/
def OutputMode.ofValue : Json → Except Failure OutputMode
  | .string name =>
    match OutputMode.ofName? name with
    | some mode => .ok mode
    | none => .error (.unknownMode (Json.string name).shown)
  | v => .error (.unknownMode v.shown)

/-- The latest generation of each document; a document without a request has none. -/
structure Generations where
  latest : List (Text × Int) := []
  deriving DecidableEq, Repr

namespace Generations

def current (g : Generations) (key : Text) : Int := (g.latest.lookup key).getD 0

/-- Takes the next generation of a document. -/
def begin (g : Generations) (key : Text) : Int × Generations :=
  let next := g.current key + 1
  (next,⟨(key,next) :: g.latest.filter (·.1 ≠ key)⟩)

def isCurrent (g : Generations) (key : Text) (generation : Int) : Bool :=
  g.current key == generation

theorem current_begin (g : Generations) (key other : Text) :
    (g.begin key).2.current other = if other = key then g.current key + 1 else g.current other := by
  unfold current begin
  by_cases h : other = key
  · simp [h,current]
  · simp only [List.lookup_cons,beq_eq_false_iff_ne.mpr h,h,if_false]
    congr 1
    induction g.latest with
    | nil => rfl
    | cons p ps ih =>
      obtain ⟨k,v⟩ := p
      by_cases hk : k = key
      · subst hk
        rw [List.filter_cons_of_neg (by simp),List.lookup_cons,beq_eq_false_iff_ne.mpr h]
        exact ih
      · rw [List.filter_cons_of_pos (by simpa using hk),List.lookup_cons,List.lookup_cons]
        split
        · rfl
        · exact ih

end Generations

/-- A call under way. The key is the document's path as it is compared. -/
structure Call where
  path : Text
  mode : OutputMode
  key : Text
  generation : Int
  deriving DecidableEq, Repr

namespace Session

/-- Without a mode the settings name it. -/
def modeOf (settings : Settings) (mode : Json) : Except Failure OutputMode :=
  OutputMode.ofValue (if mode.isAbsent then .string settings.defaultMode else mode)

/-- Starts a call. One whose mode or path is refused takes no generation. -/
def start (host : Host) (settings : Settings) (g : Generations) (path : Text) (mode : Json) :
    Except Failure (Call × Generations) := do
  let mode ← modeOf settings mode
  let key ← (Path.normalForm host settings.resolveLinks path).mapError .path
  let (generation,g) := g.begin key
  return (⟨path,mode,key,generation⟩,g)

/-- What the formatter printed, as edits: a report is interpreted, a whole text that differs from
the document replaces it. -/
def editsFromOutput (host : Host) (settings : Settings) (path output : Text) :
    OutputMode → Except Failure (List Edit)
  | .diff =>
    (Report.interpretColoured host settings.resolveLinks path output).mapError .report
  | .display => do
    let text := Escape.strip output
    let document ← (Document.read host path).mapError .document
    return if text = document then [] else [Edit.wholeDocument document text]

/-- What the formatter makes of the call's document. -/
def outcome (host : Host) (settings : Settings) (call : Call) : Except Formatter.Fault Text :=
  match Formatter.find host settings.formatterPath with
  | .error fault => .error (.path fault)
  | .ok executable =>
    Formatter.run host (settings.timeLimit.map .exact) ⟨executable,call.mode,call.path⟩

/-- No clock is read here, so the time of a result is never filled in. -/
def infoOf (settings : Settings) (runId : Text) (call : Call) : Meta :=
  { runId, formatter := settings.formatterName, generation := call.generation }

/-- Ends a call with its formatter's outcome. -/
def finish (host : Host) (settings : Settings) (g : Generations) (runId : Text) (call : Call) :
    Except Formatter.Fault Text → Except Failure FormatResult
  | .error (.notFound _) =>
    .ok { path := call.path, mode := call.mode, advisory := some settings.notFoundMessage
          info := infoOf settings runId call }
  | .error fault => .error (.formatter fault)
  | .ok output => do
    let edits ← editsFromOutput host settings call.path output call.mode
    let current := g.isCurrent call.key call.generation
    return { path := call.path, mode := call.mode, edits := if current then edits else []
             stale := !current, info := infoOf settings runId call }

def complete (host : Host) (settings : Settings) (g : Generations) (runId : Text) (call : Call) :
    Except Failure FormatResult :=
  finish host settings g runId call (outcome host settings call)

/-- A call by itself: it ends before another starts. -/
def format (host : Host) (settings : Settings) (g : Generations) (runId path : Text) (mode : Json) :
    Except Failure FormatResult × Generations :=
  match start host settings g path mode with
  | .error failure => (.error failure,g)
  | .ok (call,g) => (complete host settings g runId call,g)

/-- Starts calls one after the other. -/
def startAll (host : Host) (settings : Settings) (g : Generations) :
    List (Text × Json) → List (Except Failure Call) × Generations
  | [] => ([],g)
  | (path,mode) :: rest =>
    match start host settings g path mode with
    | .error failure =>
      let (calls,g) := startAll host settings g rest
      (.error failure :: calls,g)
    | .ok (call,g) =>
      let (calls,g) := startAll host settings g rest
      (.ok call :: calls,g)

/-- Calls that all start before any of them ends. -/
def formatTogether (host : Host) (settings : Settings) (g : Generations) (runId : Text)
    (requests : List (Text × Json)) : List (Except Failure FormatResult) × Generations :=
  let (calls,g) := startAll host settings g requests
  (calls.map fun call => call.bind (complete host settings g runId),g)

end Session
end FormatEdits
