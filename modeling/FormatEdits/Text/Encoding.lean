import FormatEdits.Text.Quoted

namespace FormatEdits.Text.Utf8

abbrev Bytes := List UInt8

inductive Reason
  | invalidStart
  | invalidContinuation
  | unexpectedEnd
  deriving DecidableEq, Repr

/-- Bytes that are no part of a character: `width` of them from `position`, of which `first` is
the first. -/
structure Fault where
  reason : Reason
  position : Nat
  width : Nat
  first : UInt8
  deriving DecidableEq, Repr

def encodeChar (c : Char) : Bytes :=
  let n := c.toNat
  if n < 0x80 then [UInt8.ofNat n]
  else if n < 0x800 then [UInt8.ofNat (0xC0 + n / 64),UInt8.ofNat (0x80 + n % 64)]
  else if n < 0x10000 then
    [UInt8.ofNat (0xE0 + n / 4096),UInt8.ofNat (0x80 + n / 64 % 64),UInt8.ofNat (0x80 + n % 64)]
  else
    [UInt8.ofNat (0xF0 + n / 262144),UInt8.ofNat (0x80 + n / 4096 % 64),
      UInt8.ofNat (0x80 + n / 64 % 64),UInt8.ofNat (0x80 + n % 64)]

inductive Read
  | char (c : Char) (rest : Bytes)
  | bad (reason : Reason) (width : Nat) (rest : Bytes)

def Read.rest : Read → Bytes
  | .char _ rest => rest
  | .bad _ _ rest => rest

/-- What a first byte announces: how many bytes follow, the range of the next one, and the bits
that it gives itself. Overlong forms, surrogates and code points past the last are ruled out by
the range. -/
def lead? (b : Nat) : Option (Nat × Nat × Nat × Nat) :=
  if 0xC2 ≤ b ∧ b ≤ 0xDF then some (1,0x80,0xBF,b - 0xC0)
  else if b = 0xE0 then some (2,0xA0,0xBF,0)
  else if b = 0xED then some (2,0x80,0x9F,0xD)
  else if 0xE1 ≤ b ∧ b ≤ 0xEF then some (2,0x80,0xBF,b - 0xE0)
  else if b = 0xF0 then some (3,0x90,0xBF,0)
  else if 0xF1 ≤ b ∧ b ≤ 0xF3 then some (3,0x80,0xBF,b - 0xF0)
  else if b = 0xF4 then some (3,0x80,0x8F,4)
  else none

/-- Reads the bytes still owed to a character of which `width` bytes gave `value` so far. -/
def readTail : Nat → Nat → Nat → Nat → Nat → Bytes → Read
  | 0, _, _, value, _, rest => .char (Char.ofNat value) rest
  | _ + 1, _, _, _, width, [] => .bad .unexpectedEnd width []
  | owed + 1, low, high, value, width, b :: r =>
    if low ≤ b.toNat ∧ b.toNat ≤ high then
      readTail owed 0x80 0xBF (value * 64 + (b.toNat - 0x80)) (width + 1) r
    else .bad .invalidContinuation width (b :: r)

def readChar (b : UInt8) (r : Bytes) : Read :=
  if b.toNat < 0x80 then .char (Char.ofNat b.toNat) r
  else match lead? b.toNat with
    | none => .bad .invalidStart 1 r
    | some (owed,low,high,value) => readTail owed low high value 1 r

theorem rest_readTail_length (owed low high value width : Nat) (r : Bytes) :
    (readTail owed low high value width r).rest.length ≤ r.length := by
  fun_induction readTail owed low high value width r with
  | case1 => exact Nat.le_refl _
  | case2 => exact Nat.le_refl _
  | case3 _ _ _ _ _ _ _ _ ih => exact Nat.le_trans ih (Nat.le_succ _)
  | case4 => exact Nat.le_refl _

theorem rest_readChar_length (b : UInt8) (r : Bytes) : (readChar b r).rest.length ≤ r.length := by
  unfold readChar
  split
  · exact Nat.le_refl _
  · split
    · exact Nat.le_refl _
    · exact rest_readTail_length ..

/-- The characters and faults of the bytes, in order. -/
def scan (position : Nat) : Bytes → List (Except Fault Char)
  | [] => []
  | b :: r =>
    match h : readChar b r with
    | .char c rest =>
      have : rest.length < r.length + 1 := by
        have := rest_readChar_length b r; rw [h] at this; exact Nat.lt_succ_of_le this
      .ok c :: scan (position + (encodeChar c).length) rest
    | .bad reason width rest =>
      have : rest.length < r.length + 1 := by
        have := rest_readChar_length b r; rw [h] at this; exact Nat.lt_succ_of_le this
      .error ⟨reason,position,width,b⟩ :: scan (position + width) rest
  termination_by bytes => bytes.length

def replacement : Char := Char.ofNat 0xFFFD

/-- The text of the bytes, or the first fault in them. -/
def decode (bytes : Bytes) : Except Fault Text := (scan 0 bytes).mapM id

/-- The text of the bytes with one replacement character for each fault. -/
def decodeLenient (bytes : Bytes) : Text :=
  (scan 0 bytes).map fun
    | .ok c => c
    | .error _ => replacement

/-- What a text may start with to show how it is encoded. -/
def byteOrderMark : Bytes := [0xEF,0xBB,0xBF]

/-- The bytes behind a mark. Of a text that ends within its mark nothing is left. -/
def withoutMark (bytes : Bytes) : Bytes :=
  if bytes.isPrefixOf byteOrderMark then []
  else if byteOrderMark.isPrefixOf bytes then bytes.drop byteOrderMark.length
  else bytes

def encode (t : Text) : Bytes := t.flatMap encodeChar

def Reason.message : Reason → Text
  | .invalidStart => "invalid start byte".toList
  | .invalidContinuation => "invalid continuation byte".toList
  | .unexpectedEnd => "unexpected end of data".toList

/-- A single byte is shown; of several only the places are named. -/
def Fault.message (f : Fault) : Text :=
  let quote := [singleQuote]
  let place :=
    if f.width = 1 then
      "byte 0x".toList ++ hexDigits 2 f.first.toNat ++ " in position ".toList ++ ofNat f.position
    else
      "bytes in position ".toList ++ ofNat f.position ++ '-' :: ofNat (f.position + f.width - 1)
  quote ++ "utf-8".toList ++ quote ++ " codec can".toList ++ quote ++ "t decode ".toList ++ place ++
    ": ".toList ++ f.reason.message

end FormatEdits.Text.Utf8

namespace FormatEdits.Text

open Utf8 (Bytes)

/-- Units of one, two or four bytes; the larger ones have their first byte at one end or the
other. -/
inductive EncodingForm
  | singles
  | pairs (bigEndian : Bool)
  | quads (bigEndian : Bool)
  deriving DecidableEq, Repr

namespace EncodingForm

def of : Bytes → EncodingForm
  | [a,b] => if a = 0 then .pairs true else if b = 0 then .pairs false else .singles
  | a :: b :: c :: d :: _ =>
    if a = 0 then if b = 0 then .quads true else .pairs true
    else if b = 0 then if c = 0 ∧ d = 0 then .quads false else .pairs false
    else .singles
  | _ => .singles

/-- The number that bytes write, the last one with the least weight. -/
def valueOf (bytes : List UInt8) : Nat := bytes.foldl (fun n b => n * 256 + b.toNat) 0

/-- The units of so many bytes each; none may be cut short. -/
def pairUnits? (bigEndian : Bool) : Bytes → Option (List Nat)
  | [] => some []
  | a :: b :: r =>
    (pairUnits? bigEndian r).map (valueOf (if bigEndian then [a,b] else [b,a]) :: ·)
  | _ => none

def quadUnits? (bigEndian : Bool) : Bytes → Option (List Nat)
  | [] => some []
  | a :: b :: c :: d :: r =>
    (quadUnits? bigEndian r).map (valueOf (if bigEndian then [a,b,c,d] else [d,c,b,a]) :: ·)
  | _ => none

def maxCodePoint : Nat := 0x10FFFF

/-- The text that bytes in some form write. Here a surrogate that stands alone is not kept: among
single bytes it is a fault, among larger units it shows as a replacement character. -/
def decode? : EncodingForm → Bytes → Option Text
  | .singles, bytes => (Utf8.decode bytes).toOption
  | .pairs bigEndian, bytes =>
    (pairUnits? bigEndian bytes).map fun units => (ofUnits units).map shown
  | .quads bigEndian, bytes => do
    let units ← quadUnits? bigEndian bytes
    if units.all (· ≤ maxCodePoint) then return units.map fun unit => shown (unitPoint unit)
    else none

theorem of_eq_singles {a b : UInt8} (ha : a ≠ 0) (hb : b ≠ 0) (r : Bytes) :
    of (a :: b :: r) = .singles := by
  match r with
  | [] => simp [of,ha,hb]
  | [_] => rfl
  | _ :: _ :: _ => simp [of,ha,hb]

end EncodingForm

/-- The text of bytes in the form that they show; one with a mark in front is in single bytes. -/
def ofBytes? (bytes : Bytes) : Option Text :=
  if Utf8.byteOrderMark.isPrefixOf bytes then
    EncodingForm.singles.decode? (bytes.drop Utf8.byteOrderMark.length)
  else (EncodingForm.of bytes).decode? bytes

end FormatEdits.Text
