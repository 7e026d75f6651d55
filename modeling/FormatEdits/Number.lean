import FormatEdits.Text.Basic

namespace FormatEdits

inductive Binary64
  | nan
  | infinity (negative : Bool)
  | finite (negative : Bool) (mantissa : Nat) (exponent : Int)
  deriving DecidableEq, Repr

namespace Binary64

/-- The smallest exponent, that of the numbers next to zero. -/
def minExponent : Int := -1074

def maxExponent : Int := 971

/-- `num / den` times two to the `e`, as a quotient of natural numbers. -/
def scaled (num den : Nat) (e : Int) : Nat × Nat :=
  if 0 ≤ e then (num * Nat.pow 2 e.toNat,den) else (num,den * Nat.pow 2 (-e).toNat)

/-- The nearest natural number to a quotient; a half goes to the even neighbour. -/
def nearest (num den : Nat) : Nat :=
  let q := num / den
  let r := num % den
  if 2 * r < den ∨ (2 * r = den ∧ q % 2 = 0) then q else q + 1

/-- The number nearest to the quotient; one too large for any is infinite. -/
def ofRatio (negative : Bool) (num den : Nat) : Binary64 :=
  if num = 0 then .finite negative 0 minExponent
  else
    let guess : Int := (num.log2 : Int) - den.log2
    let below := let (n,d) := scaled num den (-guess); n < d
    let e := max ((if below then guess - 1 else guess) - 52) minExponent
    let m := let (n,d) := scaled num den (-e); nearest n d
    let (m,e) := if m = Nat.pow 2 53 then (Nat.pow 2 52,e + 1) else (m,e)
    if maxExponent < e then .infinity negative else .finite negative m e

/-- The number nearest to `digits` times ten to the `exponent`. -/
def ofDecimal (negative : Bool) (digits : Nat) (exponent : Int) : Binary64 :=
  let magnitude := ((Nat.toDigits 10 digits).length : Int) + exponent
  if digits = 0 ∨ magnitude < -400 then .finite negative 0 minExponent
  else if 400 < magnitude then .infinity negative
  else if 0 ≤ exponent then ofRatio negative (digits * Nat.pow 10 exponent.toNat) 1
  else ofRatio negative digits (Nat.pow 10 (-exponent).toNat)

def ofInt (n : Int) : Binary64 := ofRatio (n < 0) n.natAbs 1

/-- The integer that the number is, if it is one. -/
def toInt? : Binary64 → Option Int
  | .finite negative m e =>
    let (n,d) := scaled m 1 e
    if n % d = 0 then some (if negative then -((n / d : Nat) : Int) else (n / d : Nat)) else none
  | _ => none

/-- Whether a time limit of so many seconds ends before `seconds` have passed; a limit that is no
number ends at once. -/
def endsBefore (seconds : Nat) : Binary64 → Bool
  | .nan => true
  | .infinity negative => negative
  | .finite negative m e => m = 0 || negative || (let (n,d) := scaled m 1 e; n < seconds * d)

/-- A decimal number: `digits` without leading or trailing zeros, the point before place `point`. -/
structure Decimal where
  digits : Text
  point : Int
  deriving DecidableEq, Repr

/-- The place of the point before which a quotient has all its integer digits. -/
def pointOf (num den : Nat) : Int :=
  if den ≤ num then (Nat.toDigits 10 (num / den)).length
  else 1 - (Nat.toDigits 10 ((den - 1) / num)).length

/-- The bounds of the numbers that round to `mantissa · 2^exponent`, and the number itself, all
over one denominator. -/
structure Interval where
  low : Nat
  value : Nat
  high : Nat
  den : Nat
  closed : Bool

def intervalOf (m : Nat) (e : Int) : Interval :=
  let unit : Nat × Nat := scaled 1 1 (e - 2)
  let low := if m = Nat.pow 2 52 ∧ minExponent < e then 4 * m - 1 else 4 * m - 2
  ⟨low * unit.1,4 * m * unit.1,(4 * m + 2) * unit.1,unit.2,m % 2 = 0⟩

/-- Whether `num / den` rounds to the number of the interval. -/
def Interval.holds (i : Interval) (num den : Nat) : Bool :=
  let x := num * i.den
  if i.closed then i.low * den ≤ x && x ≤ i.high * den else i.low * den < x && x < i.high * den

/-- The neighbours of the value among the numbers with `count` digits; the nearer of those in the
interval, and the even one of two that are equally near. -/
def onGrid? (i : Interval) (point : Int) (count : Nat) : Option Nat :=
  let step := point - count
  let up := if 0 ≤ step then Nat.pow 10 step.toNat else 1
  let down := if 0 ≤ step then 1 else Nat.pow 10 (-step).toNat
  let d := i.value * down / (i.den * up)
  let rest := i.value * down % (i.den * up)
  let lower := i.holds (d * up) down
  let upper := i.holds ((d + 1) * up) down
  if lower && upper then
    some (if 2 * rest < i.den * up ∨ (2 * rest = i.den * up ∧ d % 2 = 0) then d else d + 1)
  else if lower then some d
  else if upper then some (d + 1)
  else none

/-- Seventeen digits are always enough. -/
def shortest (m : Nat) (e : Int) : Decimal :=
  let i := intervalOf m e
  let point := pointOf i.value i.den
  match (List.range 17).findSome? fun k => (onGrid? i point (k + 1)).map (k + 1,·) with
  | none => ⟨[],0⟩
  | some (count,d) =>
    let ds := Text.ofNat d
    ⟨Text.dropFinalWhile (· == '0') ds,point + ((ds.length : Int) - count)⟩

/-- Positional from 0.0001 up to below 10^16, with a digit on both sides of the point; otherwise
with a signed exponent of two digits or more. -/
def Decimal.text (d : Decimal) : Text :=
  if -4 < d.point ∧ d.point ≤ 16 then
    if d.point ≤ 0 then "0.".toList ++ List.replicate (-d.point).toNat '0' ++ d.digits
    else
      let n := d.point.toNat
      if n < d.digits.length then d.digits.take n ++ '.' :: d.digits.drop n
      else d.digits ++ List.replicate (n - d.digits.length) '0' ++ ".0".toList
  else
    let power := d.point - 1
    let size := Text.ofNat power.natAbs
    d.digits.take 1 ++ (if d.digits.length ≤ 1 then [] else '.' :: d.digits.drop 1) ++
      'e' :: (if power < 0 then '-' else '+') :: (if size.length < 2 then '0' :: size else size)

def text : Binary64 → Text
  | .nan => "nan".toList
  | .infinity negative => if negative then "-inf".toList else "inf".toList
  | .finite negative m e =>
    (if negative then ['-'] else []) ++ if m = 0 then "0.0".toList else (shortest m e).text

end Binary64
end FormatEdits
