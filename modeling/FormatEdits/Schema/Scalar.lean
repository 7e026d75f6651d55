import FormatEdits.Schema.Checked

namespace FormatEdits.Schema

/-- Blanks around a number in a text: those of Unicode without the separators among the control
characters. -/
def isNumberBlank (c : Char) : Bool :=
  let n := c.toNat
  (0x9 ≤ n && n ≤ 0xD) || n == 0x20 || n == 0x85 || n == 0xA0 || n == 0x1680 ||
    (0x2000 ≤ n && n ≤ 0x200A) || n == 0x2028 || n == 0x2029 || n == 0x202F || n == 0x205F ||
    n == 0x3000

def trimNumber (t : Text) : Text := Text.dropFinalWhile isNumberBlank (t.dropWhile isNumberBlank)

/-- A text with single underscores inside, without them. -/
def withoutUnderscores? (t : Text) : Option Text :=
  let groups := t.fields '_'
  if groups.all (· ≠ []) then some groups.flatten else none

namespace WholeNumber

/-- The number that a text in the plain form writes. -/
def natural? (t : Text) : Option Nat :=
  match t with
  | ['0'] => some 0
  | c :: _ => if c ≠ '0' ∧ t.all Json.isAsciiDigit then some (Json.asciiValue t) else none
  | [] => none

def plain? : Text → Option Int
  | '-' :: r => (natural? r).map fun n => -(n : Int)
  | r => (natural? r).map Int.ofNat

/-- What counts behind a zero in front: from the first digit that is none, or from a sign that may
still stand there. Before a point, and where nothing else comes, the last character passed over is
kept; `passed` is that character. -/
def behindZero? (passed : Char) : Text → Option Text
  | [] => some [passed]
  | c :: r =>
    if c = '0' ∨ c = '_' then behindZero? c r
    else if c = '.' then some (passed :: c :: r)
    else if c = '-' ∨ Json.isAsciiDigit c then some (c :: r)
    else none

/-- A number has to start with a digit. -/
def withoutZeros? : Text → Option Text
  | [] => none
  | c :: r =>
    if c = '0' then behindZero? c r
    else if Json.isAsciiDigit c then some (c :: r)
    else none

/-- A fraction of zeros, at least one, does not count. -/
def withoutFraction (t : Text) : Text :=
  match t.cutAt '.' with
  | (whole,some places) => if places ≠ [] ∧ places.all (· = '0') then whole else t
  | (_,none) => t

/-- What is left of a text without a sign. -/
def reduced? (t : Text) : Option Text := do
  let t := withoutFraction (← withoutZeros? t)
  return (withoutUnderscores? t).getD t

/-- The plain form of a text. -/
def plainForm? (t : Text) : Option Text :=
  match trimNumber t with
  | '+' :: r => reduced? r
  | '-' :: r => (reduced? r).map ('-' :: ·)
  | r => reduced? r

/-- Whether a text starts with a number in the plain form that is too long to be read. -/
def isOverlong (t : Text) : Bool :=
  let (sign,r) : Nat × Text := match t with
    | '-' :: r => (1,r)
    | r => (0,r)
  r.head? ≠ some '0' && Text.digitLimit < sign + (r.takeWhile Json.isAsciiDigit).length

/-- The number that a text writes, in the plain form or one that can be brought into it. -/
def ofText? (t : Text) : Option Int := do
  let plain ← plainForm? t
  if isOverlong plain then none else plain? plain

end WholeNumber

/-- A sign in front of a number, and the rest. -/
def splitSign : Text → Bool × Text
  | '-' :: r => (true,r)
  | '+' :: r => (false,r)
  | r => (false,r)

/-- Whole numbers with a fraction point are exact up to this size. -/
def wholeLimit : Nat := Nat.pow 2 63

def integer : Json → Checked Int
  | .int n => .valid n
  | .bool b => .valid (if b then 1 else 0)
  | .float x =>
    match x with
    | .finite _ _ _ =>
      match x.toInt? with
      | none => .reject .fractionalInteger (.float x)
      | some n => if n.natAbs < wholeLimit then .valid n else .reject .overlongInteger (.float x)
    | x => .reject .infiniteInteger (.float x)
  | .string s =>
    if WholeNumber.isOverlong s then .reject .overlongInteger (.string s)
    else match WholeNumber.ofText? s with
      | some n => .valid n
      | none => .reject .unreadableInteger (.string s)
  | input => .reject .notInteger input

/-- A whole number from zero on. -/
def natural (input : Json) : Checked Nat :=
  (integer input).filter fun n => if n < 0 then .reject .negative input else .valid n.toNat

/-- A text of characters alone. -/
def string : Json → Checked Text
  | .string s => .valid s
  | input => .reject .notString input

/-- A text that may hold surrogates that stand alone. -/
def points : Json → Checked (Text CodePoint)
  | .string s => .valid s.lift
  | .unpaired s => .valid s
  | input => .reject .notString input

def trueNames : List Text :=
  ["1".toList,"t".toList,"y".toList,"on".toList,"yes".toList,"true".toList]

def falseNames : List Text :=
  ["0".toList,"f".toList,"n".toList,"off".toList,"no".toList,"false".toList]

/-- Of the numbers, one and zero are truth values; `input` is the data that gave the number. -/
def truthOf (n : Int) (input : Json) : Checked Bool :=
  if n = 1 then .valid true
  else if n = 0 then .valid false
  else .reject .unreadableBoolean input

/-- Whether a whole number is one of 64 bits with a sign. -/
def fitsWord (n : Int) : Bool := -(wholeLimit : Int) ≤ n && n < (wholeLimit : Int)

/-- Names of truth values are read in any case, but not with blanks around them. A number too large
for a word is not even looked at. -/
def boolean : Json → Checked Bool
  | .bool b => .valid b
  | .string s =>
    if trueNames.contains s.lowered then .valid true
    else if falseNames.contains s.lowered then .valid false
    else .reject .unreadableBoolean (.string s)
  | .int n =>
    if fitsWord n then truthOf n (.int n) else .reject .notBoolean (.int n)
  | .float x =>
    match x.toInt? with
    | some n =>
      if n.natAbs < wholeLimit then truthOf n (.float x) else .reject .notBoolean (.float x)
    | none => .reject .notBoolean (.float x)
  | input => .reject .notBoolean input

/-- Decimal text with an optional fraction and power of ten, with a digit on one side of the point
at least; or the name of infinity or of no number. -/
def decimalOf? (t : Text) : Option Binary64 :=
  let (negative,r) := splitSign t
  let name := r.lowered
  if name = "nan".toList then some .nan
  else if name = "inf".toList ∨ name = "infinity".toList then some (.infinity negative)
  else
    let whole := r.takeWhile Json.isAsciiDigit
    let r := r.dropWhile Json.isAsciiDigit
    let (places,r) := match r with
      | '.' :: r => (r.takeWhile Json.isAsciiDigit,r.dropWhile Json.isAsciiDigit)
      | r => ([],r)
    if whole ++ places = [] then none
    else
      let number (power : Int) :=
        some (Binary64.ofDecimal negative (Json.asciiValue (whole ++ places))
          (power - places.length))
      match r, Json.readPower r with
      | [], _ => number 0
      | _, some (power,[]) => number power
      | _, _ => none

def number : Json → Checked Binary64
  | .float x => .valid x
  | .int n =>
    match Binary64.ofInt n with
    | .infinity _ => .reject .notNumber (.int n)
    | x => .valid x
  | .bool b => .valid (.ofInt (if b then 1 else 0))
  | .string s =>
    match decimalOf? (trimNumber s) <|> (withoutUnderscores? s).bind decimalOf? with
    | some x => .valid x
    | none => .reject .unreadableNumber (.string s)
  | input => .reject .notNumber input

end FormatEdits.Schema
