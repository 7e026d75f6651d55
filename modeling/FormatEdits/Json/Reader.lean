import FormatEdits.Json.Value

namespace FormatEdits.Json

inductive Problem
  | expectingValue
  | expectingName
  | expectingColon
  | expectingComma
  | unterminatedString
  | controlCharacter
  | badEscape
  | badCodePoint
  | extraData
  | overlongNumber (digits : Nat)
  | tooDeep
  deriving DecidableEq, Repr

/-- A problem, and how much of the text was left where it was met. -/
structure Obstacle where
  problem : Problem
  left : Nat
  deriving DecidableEq, Repr

structure Fault where
  problem : Problem
  position : Nat
  deriving DecidableEq, Repr

abbrev Parsed (α : Type) := Except Obstacle (α × Text)

def stopAt {α : Type} (problem : Problem) (rest : Text) : Parsed α :=
  .error ⟨problem,rest.length⟩

def isSpace (c : Char) : Bool := c == ' ' || c == '\t' || c == '\n' || c == '\r'

def skipSpace (t : Text) : Text := t.dropWhile isSpace

def hexValue? (c : Char) : Option Nat :=
  if '0' ≤ c && c ≤ '9' then some (c.toNat - 48)
  else if 'a' ≤ c && c ≤ 'f' then some (c.toNat - 87)
  else if 'A' ≤ c && c ≤ 'F' then some (c.toNat - 55)
  else none

/-- The number that four hexadecimal digits write. -/
def codeUnit? (a b c d : Char) : Option Nat := do
  let a ← hexValue? a
  let b ← hexValue? b
  let c ← hexValue? c
  let d ← hexValue? d
  return ((a * 16 + b) * 16 + c) * 16 + d

def namedEscape? (c : Char) : Option Char :=
  if c = '"' ∨ c = '\\' ∨ c = '/' then some c
  else if c = 'b' then some (Char.ofNat 8)
  else if c = 'f' then some (Char.ofNat 12)
  else if c = 'n' then some '\n'
  else if c = 'r' then some '\r'
  else if c = 't' then some '\t'
  else none

/-- The letter after a backslash and `u`, of which `t` is the text that follows: four digits,
or eight where two escapes write a pair. Something must follow the digits. -/
def codePoint (t : Text) : Parsed CodePoint :=
  match t with
  | a :: b :: c :: d :: x :: r =>
    match codeUnit? a b c d with
    | none => .error ⟨.badCodePoint,t.length + 1⟩
    | some n =>
      if Text.isHigh n then
        match x :: r with
        | '\\' :: 'u' :: e :: f :: g :: h :: y :: s =>
          match codeUnit? e f g h with
          | none => .error ⟨.badCodePoint,s.length + 6⟩
          | some m => if Text.isLow m then .ok (.char (Text.pairChar n m),y :: s)
            else .ok (Text.unitPoint n,x :: r)
        | _ => .ok (Text.unitPoint n,x :: r)
      else .ok (Text.unitPoint n,x :: r)
  | _ => .error ⟨.badCodePoint,t.length + 1⟩

theorem length_of_codePoint {t rest : Text} {c : CodePoint} (h : codePoint t = .ok (c,rest)) :
    rest.length < t.length := by
  unfold codePoint at h
  split at h
  · split at h
    · simp at h
    · split at h
      · split at h
        · next heq =>
          split at h
          · simp at h
          · split at h
            · simp only [Except.ok.injEq,Prod.mk.injEq] at h
              have := congrArg List.length heq
              obtain ⟨-,rfl⟩ := h
              simp only [List.length_cons] at this ⊢
              omega
            · simp only [Except.ok.injEq,Prod.mk.injEq] at h
              obtain ⟨-,rfl⟩ := h
              simp only [List.length_cons]
              omega
        · simp only [Except.ok.injEq,Prod.mk.injEq] at h
          obtain ⟨-,rfl⟩ := h
          simp only [List.length_cons]
          omega
      · simp only [Except.ok.injEq,Prod.mk.injEq] at h
        obtain ⟨-,rfl⟩ := h
        simp only [List.length_cons]
        omega
  · simp at h

/-- The rest of a string that starts with the opening quote of `whole`. -/
def readString (whole : Text) (t : Text) : Parsed (Text CodePoint) :=
  match t with
  | [] => stopAt .unterminatedString whole
  | '"' :: r => .ok ([],r)
  | '\\' :: r =>
    match r with
    | [] => stopAt .unterminatedString whole
    | 'u' :: digits =>
      match h : codePoint digits with
      | .error e => .error e
      | .ok (c,rest) =>
        have := length_of_codePoint h
        (readString whole rest).map fun (s,r) => (c :: s,r)
    | e :: r' =>
      match namedEscape? e with
      | none => .error ⟨.badEscape,r.length + 1⟩
      | some c => (readString whole r').map fun (s,r) => (.char c :: s,r)
  | c :: r =>
    if c.toNat < 0x20 then .error ⟨.controlCharacter,r.length + 1⟩
    else (readString whole r).map fun (s,r) => (.char c :: s,r)
  termination_by t.length

def isAsciiDigit (c : Char) : Bool := '0' ≤ c && c ≤ '9'

def asciiValue (ds : Text) : Nat := ds.foldl (fun n c => 10 * n + (c.toNat - 48)) 0

/-- The fraction after an integer part: a point and at least one digit. -/
def readFraction : Text → Option (Text × Text)
  | '.' :: r =>
    let ds := r.takeWhile isAsciiDigit
    if ds = [] then none else some (ds,r.dropWhile isAsciiDigit)
  | _ => none

/-- The power of ten at the end of a number, with at least one digit. -/
def readPower : Text → Option (Int × Text)
  | e :: r =>
    if e = 'e' ∨ e = 'E' then
      let (negative,r) := match r with
        | '-' :: r => (true,r)
        | '+' :: r => (false,r)
        | r => (false,r)
      let ds := r.takeWhile isAsciiDigit
      if ds = [] then none
      else
        let n : Int := asciiValue ds
        some (if negative then -n else n,r.dropWhile isAsciiDigit)
    else none
  | [] => none

/-- A number with a fraction or a power of ten is a double precision number, any other is whole. -/
def readNumber (t : Text) : Parsed Json :=
  let (negative,r) := match t with
    | '-' :: r => (true,r)
    | r => (false,r)
  let digits := match r with
    | '0' :: _ => ['0']
    | r => r.takeWhile isAsciiDigit
  if digits = [] then stopAt .expectingValue t
  else
    let r := r.drop digits.length
    let fraction := readFraction r
    let afterFraction := (fraction.map (·.2)).getD r
    let power := readPower afterFraction
    let rest := (power.map (·.2)).getD afterFraction
    if fraction.isNone && power.isNone then
      if Text.digitLimit < digits.length then .error ⟨.overlongNumber digits.length,t.length⟩
      else
        let n : Int := asciiValue digits
        .ok (.int (if negative then -n else n),rest)
    else
      let places := (fraction.map (·.1)).getD []
      let exponent := (power.map (·.1)).getD 0 - places.length
      .ok (.float (.ofDecimal negative (asciiValue (digits ++ places)) exponent),rest)

/-- The values that are written as a name. -/
def names : List (Text × Json) :=
  [("null".toList,.null),("true".toList,.bool true),("false".toList,.bool false),
    ("NaN".toList,.float .nan),("Infinity".toList,.float (.infinity false)),
    ("-Infinity".toList,.float (.infinity true))]

def readName? (t : Text) : Option (Json × Text) :=
  names.findSome? fun (name,value) => (t.after? name).map (value,·)

/-- So many lists and objects may be open at once. -/
def depthLimit : Nat := 970

mutual

/-- Reads a value with `room` for so many lists and objects within one another. -/
def readValue : Nat → Nat → Text → Parsed Json
  | 0, _, t => stopAt .expectingValue t
  | fuel + 1, room, t =>
    match t, room with
    | '"' :: r, _ => (readString t r).map fun (s,r) => (.ofPoints s,r)
    | '[' :: _, 0 => stopAt .tooDeep t
    | '\x7b' :: _, 0 => stopAt .tooDeep t
    | '[' :: r, room + 1 =>
      match skipSpace r with
      | ']' :: r => .ok (.array [],r)
      | r => (readItems fuel room r).map fun (items,r) => (.array items,r)
    | '\x7b' :: r, room + 1 =>
      match skipSpace r with
      | '\x7d' :: r => .ok (.object [],r)
      | r => (readMembers fuel room [] r).map fun (members,r) => (.object members,r)
    | t, _ => match readName? t with
      | some found => .ok found
      | none => readNumber t

/-- The items of a list up to its closing bracket. -/
def readItems : Nat → Nat → Text → Parsed (List Json)
  | 0, _, t => stopAt .expectingValue t
  | fuel + 1, room, t =>
    match readValue fuel room t with
    | .error e => .error e
    | .ok (item,r) =>
      match skipSpace r with
      | ']' :: r => .ok ([item],r)
      | ',' :: r => (readItems fuel room (skipSpace r)).map fun (items,r) => (item :: items,r)
      | r => stopAt .expectingComma r

/-- The members of an object up to its closing brace, after those already read. In their names a
surrogate that stands alone shows as a replacement character. -/
def readMembers : Nat → Nat → List (Text × Json) → Text → Parsed (List (Text × Json))
  | 0, _, _, t => stopAt .expectingName t
  | fuel + 1, room, found, t =>
    match t with
    | '"' :: r =>
      match readString t r with
      | .error e => .error e
      | .ok (name,r) =>
        match skipSpace r with
        | ':' :: r =>
          match readValue fuel room (skipSpace r) with
          | .error e => .error e
          | .ok (value,r) =>
            let found := putMember found (name.map Letter.shown) value
            match skipSpace r with
            | '\x7d' :: r => .ok (found,r)
            | ',' :: r => readMembers fuel room found (skipSpace r)
            | r => stopAt .expectingComma r
        | r => stopAt .expectingColon r
    | t => stopAt .expectingName t

end

/-- The value that the whole text writes, blanks around it aside. -/
def read (t : Text) : Except Fault Json :=
  match readValue (2 * t.length + 2) depthLimit (skipSpace t) with
  | .error e => .error ⟨e.problem,t.length - e.left⟩
  | .ok (value,r) =>
    match skipSpace r with
    | [] => .ok value
    | r => .error ⟨.extraData,t.length - r.length⟩

def Problem.message : Problem → Text
  | .expectingValue => "Expecting value".toList
  | .expectingName => "Expecting property name enclosed in double quotes".toList
  | .expectingColon => "Expecting ':' delimiter".toList
  | .expectingComma => "Expecting ',' delimiter".toList
  | .unterminatedString => "Unterminated string starting at".toList
  | .controlCharacter => "Invalid control character at".toList
  | .badEscape => "Invalid \\escape".toList
  | .badCodePoint => "Invalid \\uXXXX escape".toList
  | .extraData => "Extra data".toList
  | .overlongNumber _ => "Overlong number".toList
  | .tooDeep => "Nested too deeply".toList

end FormatEdits.Json
