import FormatEdits.Text.Quoted

namespace FormatEdits

structure Uuid where
  bits : BitVec 128
  deriving DecidableEq, Repr

namespace Uuid

/-- Four of the random bits give way to the version, and two to the variant. -/
def ofRandom (random : BitVec 128) : Uuid :=
  let variantMask := 0xC000#128 <<< 48
  let versionMask := 0xF000#128 <<< 64
  ⟨(random &&& ~~~(versionMask ||| variantMask)) ||| (0x4000#128 <<< 64) ||| (0x8000#128 <<< 48)⟩

/-- Five groups of hexadecimal digits, the highest first. -/
def text (u : Uuid) : Text :=
  let n := u.bits.toNat
  Text.joined '-' [Text.hexDigits 8 (n >>> 96),Text.hexDigits 4 (n >>> 80),
    Text.hexDigits 4 (n >>> 64),Text.hexDigits 4 (n >>> 48),Text.hexDigits 12 n]

end Uuid

/-- A run id from outside is kept where it is safe to echo; otherwise a fresh one is made. -/
inductive RunId
  | kept (id : Text)
  | fresh
  deriving DecidableEq, Repr

namespace RunId

/-- Letters and digits, the point, the underscore and the hyphen. -/
def isSafe (c : Char) : Bool := c.isAlphanum || c == '.' || c == '_' || c == '-'

def maxLength : Nat := 64

def isWellFormed (id : Text) : Bool := id ≠ [] && id.length ≤ maxLength && id.all isSafe

/-- A single line feed behind an id does not spoil it, and stays with it. -/
def resolve : Option Text → RunId
  | some id => if isWellFormed (Text.dropFinal '\n' id) then .kept id else .fresh
  | none => .fresh

/-- The id itself; a fresh one is made from random bits. -/
def text (random : BitVec 128) : RunId → Text
  | .kept id => id
  | .fresh => (Uuid.ofRandom random).text

end RunId
end FormatEdits
