import FormatEdits.Text.Quoted

namespace FormatEdits

/-- Without an end character the range reaches to the end of its last line's content. -/
structure Edit (α : Type := Char) where
  startLine : Int
  endLine : Int
  startCharacter : Nat := 0
  endCharacter : Option Nat := none
  replacement : Text α := []
  deriving DecidableEq, Repr

namespace Edit

/-- The range is the start of a line and holds nothing. -/
def isInsertion {α : Type} (e : Edit α) : Bool :=
  e.endCharacter == some 0 && e.startLine == e.endLine

/-- The edit, if its replacement is of characters alone. -/
def chars? {α : Type} [Letter α] (e : Edit α) : Option Edit :=
  e.replacement.chars?.map fun replacement =>
    ⟨e.startLine,e.endLine,e.startCharacter,e.endCharacter,replacement⟩

/-- The edit as messages show it. -/
def shown (e : Edit) : Text :=
  "range_start_line=".toList ++ Text.ofInt e.startLine ++
  " range_end_line=".toList ++ Text.ofInt e.endLine ++
  " start_character=".toList ++ Text.ofNat e.startCharacter ++
  " end_character=".toList ++ (e.endCharacter.map Text.ofNat).getD "None".toList ++
  " replacement_text=".toList ++ e.replacement.quoted

/-- Where a line starts and where its content ends. -/
structure Span where
  start : Nat
  stop : Nat
  deriving DecidableEq, Repr

inductive Fault
  | negativeLine (line : Int)
  | endsBeforeStart (edit : Edit)
  | outOfOrder (edit : Edit)
  deriving DecidableEq, Repr

def Fault.message : Fault → Text
  | .negativeLine line => "Negative line in edit: ".toList ++ Text.ofInt line
  | .endsBeforeStart e => "Edit range ends before it starts: ".toList ++ e.shown
  | .outOfOrder e => "Overlapping or out-of-order edit: ".toList ++ e.shown

/-- A resolved edit: the text from `start` to `stop` becomes `replacement`. -/
structure Change where
  start : Nat
  stop : Nat
  replacement : Text
  deriving DecidableEq, Repr

def spansFrom (offset : Nat) : List Text → List Span
  | [] => []
  | p :: ps => ⟨offset,offset + Text.contentLength p⟩ :: spansFrom (offset + p.length) ps

def spans (t : Text) : List Span := spansFrom 0 t.pieces

/-- Lines past the last stand for the end of the text, characters past the content for its end. -/
def offset (t : Text) (line : Int) (character : Option Nat) : Except Fault Nat :=
  if line < 0 then .error (.negativeLine line)
  else match (spans t)[line.toNat]?, character with
    | none, _ => .ok t.length
    | some s, none => .ok s.stop
    | some s, some c => .ok (min (s.start + c) s.stop)

/-- The edit's change, if it begins no earlier than `previous`, where the change before it ends. -/
def resolve (t : Text) (previous : Nat) (e : Edit) : Except Fault Change := do
  let start ← offset t e.startLine (some e.startCharacter)
  let stop ← offset t e.endLine e.endCharacter
  if stop < start then throw (.endsBeforeStart e)
  if start < previous then throw (.outOfOrder e)
  return ⟨start,stop,e.replacement⟩

def resolveAll (t : Text) : Nat → List Edit → Except Fault (List Change)
  | _, [] => .ok []
  | previous, e :: es => do
    let change ← resolve t previous e
    return change :: (← resolveAll t change.stop es)

/-- The text from `cursor` on, with the changes made. -/
def rebuild (t : Text) : Nat → List Change → Text
  | cursor, [] => t.drop cursor
  | cursor, c :: cs =>
    (t.drop cursor).take (c.start - cursor) ++ c.replacement ++ rebuild t c.stop cs

/-- The text with all edits made at once; they are given in order and do not overlap. -/
def apply (t : Text) (es : List Edit) : Except Fault Text :=
  (resolveAll t 0 es).map (rebuild t 0)

/-- The range ends before the last terminator, so a line feed that both texts end in is not
written twice. -/
def wholeDocument (before after : Text) : Edit :=
  { startLine := 0
    endLine := ((before.pieces.length - 1 : Nat) : Int)
    replacement := if before.getLast? = some '\n' then Text.dropFinal '\n' after else after }

end Edit

/-- `startLine` counts from one. Context lines count as removed and are among the new lines. -/
structure Hunk (α : Type := Char) where
  startLine : Int
  removedLines : Int := 0
  newLines : List (Text α) := []
  deriving DecidableEq, Repr

namespace Hunk

variable {α : Type}

def addLine (h : Hunk α) (line : Text α) : Hunk α := { h with newLines := h.newLines ++ [line] }

def removeLine (h : Hunk α) : Hunk α := { h with removedLines := h.removedLines + 1 }

/-- A context line is taken out and put back. -/
def keepLine (h : Hunk α) (line : Text α) : Hunk α := h.removeLine.addLine line

/-- How far the hunk moves the lines behind it up. -/
def drift (h : Hunk α) : Int := h.removedLines - h.newLines.length

variable [DecidableEq α] [Letter α]

/-- The new lines in one piece. The replaced range keeps its own line feed, so the last line gives
up one at its end. -/
def replacement (h : Hunk α) : Text α :=
  h.newLines.dropLast.flatten ++ Text.dropFinal (ofChar '\n') (h.newLines.getLast?.getD [])

/-- A hunk that removes nothing becomes an insertion at the start of its line. -/
def toEdit (shift : Int) (h : Hunk α) : Edit α :=
  let start := h.startLine - 1 + shift
  { startLine := start
    endLine := if h.removedLines = 0 then start else start + h.removedLines - 1
    endCharacter := if h.removedLines = 0 then some 0 else none
    replacement := h.replacement }

end Hunk

variable {α : Type} [DecidableEq α] [Letter α]

def Edit.ofHunksFrom (shift : Int) : List (Hunk α) → List (Edit α)
  | [] => []
  | h :: hs => h.toEdit shift :: ofHunksFrom (shift + h.drift) hs

def Edit.ofHunks (hs : List (Hunk α)) : List (Edit α) := Edit.ofHunksFrom 0 hs

end FormatEdits
