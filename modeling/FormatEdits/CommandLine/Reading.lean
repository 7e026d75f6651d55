import FormatEdits.CommandLine.Grammar

namespace FormatEdits.CommandLine

/-- What stands in one word with a switch: a value behind an equals sign, or letters behind a short
spelling. -/
inductive Attached
  | nothing
  | value (t : Text)
  | letters (t : Text)
  deriving DecidableEq, Repr

/-- Behind the divider all words are plain. -/
inductive WordKind
  | plain
  | divider
  | switch (s : Switch) (attached : Attached)
  | unknownSwitch
  deriving DecidableEq, Repr

structure Word where
  text : Text
  kind : WordKind
  deriving DecidableEq, Repr

def divider : Text := ['-','-']

/-- Decimal digits, with a point somewhere before the last of them or without one. -/
def isUnsignedNumber (t : Text) : Bool :=
  match t.cutAt '.' with
  | (whole,none) => whole ≠ [] && whole.all Text.isDecimalDigit
  | (whole,some places) =>
    whole.all Text.isDecimalDigit && places ≠ [] && places.all Text.isDecimalDigit

/-- A single line feed behind the number does not count. -/
def isNegativeNumber (t : Text) : Bool :=
  t.head? = some '-' && isUnsignedNumber (Text.dropFinal '\n' (t.drop 1))

/-- A short spelling has one hyphen. -/
def isShort (spelling : Text) : Bool := spelling[1]? ≠ some '-'

/-- What is given to a switch behind an equals sign; behind a short spelling it is letters. -/
def givenTo (spelling value : Text) : Attached :=
  if isShort spelling ∧ value ≠ [] then .letters value else .value value

namespace Grammar

/-- The switches that a word may mean, with the spelling meant: a long spelling may be cut short
where what is left of it is no other's beginning. -/
def candidates (g : Grammar) (t : Text) : List (Text × WordKind) :=
  let among (p : Text → Bool) (attached : Attached) := g.switches.flatMap fun s =>
    (s.spellings.filter p).map fun spelling => (spelling,WordKind.switch s attached)
  match t with
  | '-' :: '-' :: _ =>
    let (opening,value) := t.cutAt '='
    among opening.isPrefixOf ((value.map Attached.value).getD .nothing)
  | hyphen :: letter :: rest => among (· = [hyphen,letter]) (.letters rest)
  | _ => []

/-- A word that looks like a switch but is none is plain where it is a negative number or has a
space in it. -/
def kindOf (g : Grammar) (t : Text) : Except Misuse WordKind :=
  if t.head? ≠ some '-' ∨ t = ['-'] then .ok .plain
  else match g.switchOf? t with
    | some s => .ok (.switch s .nothing)
    | none =>
      let (opening,value) := t.cutAt '='
      match g.switchOf? opening, value with
      | some s, some value => .ok (.switch s (givenTo opening value))
      | _, _ =>
        match g.candidates t with
        | [(_,kind)] => .ok kind
        | [] => .ok (if isNegativeNumber t || t.contains ' ' then .plain else .unknownSwitch)
        | several => .error (.ambiguous t (several.map (·.1)))

def wordsOf (g : Grammar) : List Text → Except Misuse (List Word)
  | [] => .ok []
  | t :: ts =>
    if t = divider then .ok (⟨t,.divider⟩ :: ts.map (⟨·,.plain⟩))
    else do
      let kind ← g.kindOf t
      let words ← g.wordsOf ts
      return ⟨t,kind⟩ :: words

end Grammar

inductive Stop
  | help (g : Grammar)
  | misuse (g : Grammar) (m : Misuse)
  deriving DecidableEq, Repr

/-- What was read so far: the switches, the latest first; the operand; and the words that belong
nowhere. -/
structure Reading where
  switches : List (Text × Option Text) := []
  operand : Option (List Text) := none
  extras : List Text := []
  deriving DecidableEq, Repr

/-- The switches that one word asks for. The last one may still wait for its value. -/
structure Asked where
  settled : List (Switch × Option Text) := []
  waiting : Option Switch := none
  deriving DecidableEq, Repr

namespace Asked

def after (first : Switch) (a : Asked) : Asked := { a with settled := (first,none) :: a.settled }

def alone (s : Switch) : Asked :=
  if s.takesValue then { waiting := some s } else { settled := [(s,none)] }

/-- The divider is no value: a switch that is given it stands there with none. Option readers of
later versions take it as the value. -/
def withValue (s : Switch) (value : Text) : Except Misuse Asked :=
  if s.takesValue then .ok { settled := [(s,if value = divider then none else some value)] }
  else .error (.unexpectedValue s value)

/-- Letters behind a short switch are its value if it takes one, and switches of their own if
not. A letter that is no switch makes them a value that is not expected, which later versions
report differently. -/
def withLetters (g : Grammar) (s : Switch) : Text → Except Misuse Asked
  | [] => .ok (alone s)
  | letter :: rest =>
    if s.takesValue then withValue s (letter :: rest)
    else match g.switchOf? ['-',letter] with
      | none => .error (.unexpectedValue s (letter :: rest))
      | some next => (withLetters g next rest).map (after s)

def of (g : Grammar) (s : Switch) : Attached → Except Misuse Asked
  | .nothing => .ok (alone s)
  | .value value => withValue s value
  | .letters letters => withLetters g s letters

end Asked

namespace Reading

def pass (r : Reading) (words : List Text) : Reading := { r with extras := r.extras ++ words }

/-- The latest value of a switch, if it is given at all; it may be given without one. -/
def given? (r : Reading) (name : Text) : Option (Option Text) := r.switches.lookup name

/-- Lets a switch take effect. -/
def enter (g : Grammar) (r : Reading) (s : Switch) (value : Option Text) : Except Stop Reading :=
  match s.action, value with
  | .help, _ => .error (.help g)
  | .value (some choices), some value =>
    if choices.contains value then .ok { r with switches := (s.name,some value) :: r.switches }
    else .error (.misuse g (.unknownChoice s.label value choices))
  | _, value => .ok { r with switches := (s.name,value) :: r.switches }

def enterAll (g : Grammar) (r : Reading) : List (Switch × Option Text) → Except Stop Reading
  | [] => .ok r
  | (s,value) :: rest => (r.enter g s value).bind fun r => r.enterAll g rest

/-- A command takes all words behind it, whatever they are. The divider goes with a single word
that it stands next to. -/
def takeWords (g : Grammar) (r : Reading) : List Word → Except Stop Reading
  | [] => .ok r
  | ⟨t,.unknownSwitch⟩ :: words => (r.pass [t]).takeWords g words
  | ⟨t,.plain⟩ :: words =>
    match r.operand, g.operand with
    | some _, _ => (r.pass [t]).takeWords g words
    | none, .command .. => .ok { r with operand := some (t :: words.map Word.text) }
    | none, .word .. =>
      let r := { r with operand := some [t] }
      match words with
      | ⟨_,.divider⟩ :: words => r.takeWords g words
      | words => r.takeWords g words
  | ⟨t,.divider⟩ :: words =>
    match r.operand, g.operand, words with
    | none, .command .., _ :: _ => .ok { r with operand := some (t :: words.map Word.text) }
    | none, .word .., ⟨t,_⟩ :: words => { r with operand := some [t] }.takeWords g words
    | _, _, words => (r.pass [t]).takeWords g words
  | ⟨_,.switch s attached⟩ :: words =>
    match Asked.of g s attached with
    | .error m => .error (.misuse g m)
    | .ok asked =>
      match asked.waiting, words with
      | none, words => (r.enterAll g asked.settled).bind fun r => r.takeWords g words
      | some s, ⟨value,.plain⟩ :: words =>
        (r.enterAll g (asked.settled ++ [(s,some value)])).bind fun r => r.takeWords g words
      | some s, _ => .error (.misuse g (.missingValue s))

end Reading

/-- Reads a command line; without an operand it is not complete. -/
def Grammar.read (g : Grammar) (ts : List Text) : Except Stop (Reading × Text × List Text) := do
  let words ← (g.wordsOf ts).mapError (.misuse g)
  let r ← ({} : Reading).takeWords g words
  match r.operand with
  | some (first :: rest) => return (r,first,rest)
  | _ => .error (.misuse g (.missingOperand g.operand.name))

end FormatEdits.CommandLine
