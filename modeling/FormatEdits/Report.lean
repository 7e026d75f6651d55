import FormatEdits.Edit
import FormatEdits.Escape
import FormatEdits.Path

namespace FormatEdits.Report

inductive LineKind (α : Type := Char)
  | fileHeader (path : Text α)
  | hunkStart (line : Int)
  | added (text : Text α)
  | removed
  | context (text : Text α)
  | other
  deriving DecidableEq, Repr

/-- What stops the reading of a report: a line number with too many digits, or a path that would
have to be looked up and cannot be. -/
inductive Fault
  | overlongNumber (digits : Nat)
  | path (fault : Path.Fault)
  deriving DecidableEq, Repr

def Fault.message : Fault → Text
  | .overlongNumber digits =>
    "Exceeds the limit (4300 digits) for integer string conversion: value has ".toList ++
      Text.ofNat digits ++
      " digits; use sys.set_int_max_str_digits() to increase the limit".toList
  | .path fault => fault.message

variable {α : Type} [DecidableEq α] [Letter α]

def fileHeaderMark : Text α := Text.lift "Diff of".toList

def hunkStartMark : Text α := Text.lift "Diff at line".toList

/-- Shown at the end of a line that ends in a line feed. -/
def returnSymbol : Char := '⏎'

/-- The marker in front is taken off; a return symbol at the end stands for a line feed. -/
def body (line : Text α) : Text α :=
  if line.getLast? = some (ofChar returnSymbol) then line.dropLast.tail ++ [ofChar '\n']
  else line.tail

/-- The path of a header, less one space in front and one colon behind. -/
def headerPath (afterMark : Text α) : Text α :=
  Text.dropFinal (ofChar ':')
    (if afterMark.head? = some (ofChar ' ') then afterMark.tail else afterMark)

/-- The number after the mark of a hunk; text without one announces nothing. -/
def hunkStartOf (afterMark : Text α) : Except Fault (LineKind α) :=
  let digits := (Text.trimStart afterMark).takeWhile Text.isDecimalDigit
  if digits = [] then .ok .other
  else if Text.digitLimit < digits.length then .error (.overlongNumber digits.length)
  else .ok (.hunkStart (Text.decimalValue digits))

def classify (line : Text α) : Except Fault (LineKind α) :=
  let line := Text.dropFinal (ofChar '\r') line
  match line.after? fileHeaderMark, line.after? hunkStartMark with
  | some rest, _ => .ok (.fileHeader (headerPath rest))
  | none, some rest => hunkStartOf rest
  | none, none =>
    if line.head? = some (ofChar '+') then .ok (.added (body line))
    else if line.head? = some (ofChar '-') then .ok .removed
    else if line.head? = some (ofChar ' ') then .ok (.context (body line))
    else .ok .other

/-- Whether a header's path names the target. -/
abbrev Naming (α : Type := Char) := Text α → Except Fault Bool

structure State (α : Type := Char) where
  currentFile : Option (Text α) := none
  inTarget : Bool := false
  openHunk : Option (Hunk α) := none
  sealedHunks : List (Hunk α) := []
  deriving DecidableEq, Repr

namespace State

/-- The hunks so far, the open one last. -/
def hunks (s : State α) : List (Hunk α) := s.sealedHunks ++ s.openHunk.toList

def inHunk (s : State α) (f : Hunk α → Hunk α) : State α :=
  if s.inTarget then { s with openHunk := s.openHunk.map f } else s

/-- A header or the start of a hunk closes the open hunk; body lines outside a hunk of the target
are passed over. -/
def advance (names : Naming α) (s : State α) (line : LineKind α) : Except Fault (State α) :=
  match line with
  | .fileHeader path =>
    (names path).map fun inTarget =>
      { currentFile := some path, inTarget, openHunk := none, sealedHunks := s.hunks }
  | .hunkStart n =>
    .ok (if s.inTarget then { s with openHunk := some ⟨n,0,[]⟩, sealedHunks := s.hunks } else s)
  | .added text => .ok (s.inHunk fun h => h.addLine text)
  | .removed => .ok (s.inHunk fun h => h.removeLine)
  | .context text => .ok (s.inHunk fun h => h.keepLine text)
  | .other => .ok s

end State

def lines (report : Text α) : List (Text α) := report.fields (ofChar '\n')

theorem lines_char (report : Text) : lines report = report.fields '\n' := rfl

/-- Reads one line into the state. -/
def step (names : Naming α) (s : State α) (line : Text α) : Except Fault (State α) := do
  s.advance names (← classify line)

/-- The target's hunks, in the order of the report. -/
def collect (names : Naming α) (report : Text α) : Except Fault (List (Hunk α)) :=
  ((lines report).foldlM (step names) {}).map State.hunks

end FormatEdits.Report

namespace FormatEdits

variable {α : Type} [DecidableEq α] [Letter α]

/-- A header names the target if it has the same text, or names the same file. -/
def Path.names (host : Host) (resolveLinks : Bool) (target : Text α) : Report.Naming α :=
  fun header =>
    if header = target then .ok true
    else (same host resolveLinks header target).mapError .path

namespace Report

/-- The edits that a report without escape sequences holds for a target. -/
def interpret (host : Host) (resolveLinks : Bool) (target report : Text α) :
    Except Fault (List (Edit α)) :=
  (collect (Path.names host resolveLinks target) report).map Edit.ofHunks

/-- The same for a report as a terminal would show it. -/
def interpretColoured (host : Host) (resolveLinks : Bool) (target report : Text α) :
    Except Fault (List (Edit α)) :=
  interpret host resolveLinks target (Escape.strip report)

end Report
end FormatEdits
