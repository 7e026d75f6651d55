namespace FormatEdits

/-- Half of a pair that writes a character in units of sixteen bits. -/
structure Surrogate where
  unit : Nat
  inRange : 0xD800 ≤ unit ∧ unit ≤ 0xDFFF
  deriving DecidableEq, Repr

/-- What texts are made of. Beside characters a text may hold surrogates that stand alone; where a
letter is compared with marks and separators, such a one is a replacement character. -/
class Letter (α : Type) where
  ofChar : Char → α
  shown : α → Char
  surrogate? : α → Option Surrogate
  shown_ofChar (c : Char) : shown (ofChar c) = c
  surrogate?_ofChar (c : Char) : surrogate? (ofChar c) = none

export Letter (ofChar shown surrogate?)

instance : Letter Char := ⟨fun c => c,fun c => c,fun _ => none,fun _ => rfl,fun _ => rfl⟩

/-- A character, or a surrogate that is no half of a pair. -/
inductive CodePoint
  | char (c : Char)
  | surrogate (s : Surrogate)
  deriving DecidableEq, Repr

instance : Letter CodePoint where
  ofChar := .char
  shown
    | .char c => c
    | .surrogate _ => Char.ofNat 0xFFFD
  surrogate?
    | .char _ => none
    | .surrogate s => some s
  shown_ofChar _ := rfl
  surrogate?_ofChar _ := rfl

/-- Texts are of characters where nothing else is said. -/
abbrev Text (α : Type := Char) := List α

namespace Text

section Letters

variable {α : Type} [Letter α]

attribute [simp] Letter.shown_ofChar Letter.surrogate?_ofChar

@[simp] theorem ofChar_inj {a b : Char} : (ofChar a : α) = ofChar b ↔ a = b := by
  refine ⟨fun h => ?_,congrArg _⟩
  simpa using congrArg (shown (α := α)) h

@[simp] theorem ofChar_char (c : Char) : (ofChar c : Char) = c := rfl

@[simp] theorem shown_char (c : Char) : shown c = c := rfl

/-- A text of characters among texts of any letters. -/
def lift (t : Text) : Text α := t.map ofChar

@[simp] theorem lift_char (t : Text) : (lift t : Text) = t := List.map_id t

@[simp] theorem map_shown_lift (t : Text) : (lift t : Text α).map shown = t := by
  simp [lift,Function.comp_def]

/-- The characters of a text that is of nothing else. -/
def chars? (t : Text α) : Option Text :=
  if t.all fun c => (surrogate? c).isNone then some (t.map shown) else none

@[simp] theorem chars?_lift (t : Text) : chars? (lift t : Text α) = some t := by
  rw [chars?,if_pos (by simp [lift]),map_shown_lift]

end Letters

section Cuts

variable {α : Type} [DecidableEq α]

/-- A final mark is taken off once; a text without it is left alone. -/
def dropFinal (mark : α) (t : Text α) : Text α :=
  if t.getLast? = some mark then t.dropLast else t

/-- The pieces between separators: always one more than there are separators. -/
def fields (sep : α) : Text α → List (Text α)
  | [] => [[]]
  | c :: r =>
    if c = sep then [] :: fields sep r
    else match fields sep r with
      | [] => [[c]]
      | f :: fs => (c :: f) :: fs

/-- The pieces with one separator between neighbours. -/
def joined (sep : α) : List (Text α) → Text α
  | [] => []
  | [f] => f
  | f :: g :: fs => f ++ sep :: joined sep (g :: fs)

/-- The text before the first separator, and the text after it if there is one. -/
def cutAt (sep : α) (t : Text α) : Text α × Option (Text α) :=
  match t.dropWhile (· ≠ sep) with
  | [] => (t,none)
  | _ :: rest => (t.takeWhile (· ≠ sep),some rest)

def dropFinalWhile (p : α → Bool) (t : Text α) : Text α :=
  (t.reverse.dropWhile p).reverse

/-- The rest of a text that starts with the given opening. -/
def after? (t opening : Text α) : Option (Text α) :=
  if opening.isPrefixOf t then some (t.drop opening.length) else none

theorem fields_ne_nil (sep : α) (t : Text α) : fields sep t ≠ [] := by
  cases t with
  | nil => simp [fields]
  | cons c r =>
    simp only [fields]
    split
    · simp
    · split <;> simp

theorem joined_fields (sep : α) (t : Text α) : joined sep (fields sep t) = t := by
  induction t with
  | nil => rfl
  | cons c r ih =>
    simp only [fields]
    split
    · next h =>
      cases hf : fields sep r with
      | nil => exact absurd hf (fields_ne_nil sep r)
      | cons f fs => rw [joined,← hf,ih,h]; rfl
    · cases hf : fields sep r with
      | nil => exact absurd hf (fields_ne_nil sep r)
      | cons f fs =>
        rw [hf] at ih
        cases fs with
        | nil => simpa [joined] using ih
        | cons g gs => simpa [joined] using ih

end Cuts

def ofNat (n : Nat) : Text := Nat.toDigits 10 n

def ofInt : Int → Text
  | .ofNat n => ofNat n
  | .negSucc n => '-' :: ofNat (n + 1)

/-- Lower case for the letters A to Z alone. -/
def lowered (t : Text) : Text := t.map Char.toLower

def isHigh (unit : Nat) : Bool := 0xD800 ≤ unit && unit ≤ 0xDBFF

def isLow (unit : Nat) : Bool := 0xDC00 ≤ unit && unit ≤ 0xDFFF

/-- Half of a pair that stands alone is no character. -/
def unitPoint (unit : Nat) : CodePoint :=
  if h : 0xD800 ≤ unit ∧ unit ≤ 0xDFFF then .surrogate ⟨unit,h⟩ else .char (Char.ofNat unit)

def pairChar (high low : Nat) : Char :=
  Char.ofNat (0x10000 + (high - 0xD800) * 0x400 + (low - 0xDC00))

/-- The letters that units write. -/
def ofUnits : List Nat → Text CodePoint
  | high :: low :: r =>
    if isHigh high && isLow low then .char (pairChar high low) :: ofUnits r
    else unitPoint high :: ofUnits (low :: r)
  | [unit] => [unitPoint unit]
  | [] => []

section Blanks

variable {α : Type} [Letter α]

/-- The separators and spaces of Unicode, and the control characters that act as them. -/
def isBlank (c : α) : Bool :=
  let n := (shown c).toNat
  (0x9 ≤ n && n ≤ 0xD) || (0x1C ≤ n && n ≤ 0x20) || n == 0x85 || n == 0xA0 || n == 0x1680 ||
    (0x2000 ≤ n && n ≤ 0x200A) || n == 0x2028 || n == 0x2029 || n == 0x202F || n == 0x205F ||
    n == 0x3000

def trimStart (t : Text α) : Text α := t.dropWhile isBlank

/-- Blanks at both ends are taken off; those inside stay. -/
def trim (t : Text α) : Text α := dropFinalWhile isBlank (trimStart t)

end Blanks

section Digits

/-- The zeros of Unicode's decimal digit sets, in code point order; nine more digits follow each. -/
def decimalZeros : List Nat :=
  [0x30,0x660,0x6F0,0x7C0,0x966,0x9E6,0xA66,0xAE6,0xB66,0xBE6,
   0xC66,0xCE6,0xD66,0xDE6,0xE50,0xED0,0xF20,0x1040,0x1090,0x17E0,
   0x1810,0x1946,0x19D0,0x1A80,0x1A90,0x1B50,0x1BB0,0x1C40,0x1C50,0xA620,
   0xA8D0,0xA900,0xA9D0,0xA9F0,0xAA50,0xABF0,0xFF10,0x104A0,0x10D30,0x11066,
   0x110F0,0x11136,0x111D0,0x112F0,0x11450,0x114D0,0x11650,0x116C0,0x11730,0x118E0,
   0x11950,0x11C50,0x11D50,0x11DA0,0x16A60,0x16AC0,0x16B50,0x1D7CE,0x1D7D8,0x1D7E2,
   0x1D7EC,0x1D7F6,0x1E140,0x1E2F0,0x1E950,0x1FBF0]

variable {α : Type} [Letter α]

/-- The value of a decimal digit of any script. -/
def digitValue? (c : α) : Option Nat :=
  let n := (shown c).toNat
  (decimalZeros.find? fun z => z ≤ n && n < z + 10).map (n - ·)

def isDecimalDigit (c : α) : Bool := (digitValue? c).isSome

/-- The number that a run of decimal digits writes; scripts may be mixed. -/
def decimalValue (ds : Text α) : Nat :=
  ds.foldl (fun n c => 10 * n + (digitValue? c).getD 0) 0

/-- A run of digits longer than this is refused instead of being read. -/
def digitLimit : Nat := 4300

end Digits

/-- The characters that end a line of a document. -/
def isBoundary (c : Char) : Bool :=
  let n := c.toNat
  (0xA ≤ n && n ≤ 0xD) || (0x1C ≤ n && n ≤ 0x1E) || n == 0x85 || n == 0x2028 || n == 0x2029

/-- The first piece grows by one character. -/
def pushFirst (c : Char) : List Text → List Text
  | [] => [[c]]
  | p :: ps => (c :: p) :: ps

/-- The lines of a document, each with its terminator; no piece is empty. -/
def pieces : Text → List Text
  | [] => []
  | '\r' :: '\n' :: r => ['\r','\n'] :: pieces r
  | c :: r => if isBoundary c then [c] :: pieces r else pushFirst c (pieces r)

/-- Line feeds and carriage returns at the end do not belong to the content. -/
def contentLength (piece : Text) : Nat :=
  (dropFinalWhile (fun c => c == '\n' || c == '\r') piece).length

/-- Every line terminator made of a carriage return is written as one line feed. -/
def unifyNewlines : Text → Text
  | [] => []
  | '\r' :: '\n' :: r => '\n' :: unifyNewlines r
  | c :: r => (if c = '\r' then '\n' else c) :: unifyNewlines r

theorem flatten_pushFirst (c : Char) (ps : List Text) :
    (pushFirst c ps).flatten = c :: ps.flatten := by
  cases ps <;> rfl

theorem flatten_pieces (t : Text) : (pieces t).flatten = t := by
  fun_induction pieces t with
  | case1 => rfl
  | case2 r ih => simp [ih]
  | case3 c r _ _ ih => simp [ih]
  | case4 c r _ _ ih => simp [flatten_pushFirst,ih]

end Text
end FormatEdits
