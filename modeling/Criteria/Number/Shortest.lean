import Criteria.Number.Binary64

/-!
# The shortest decimal of a floating-point number

* `Decimal` — digits times a power of ten.
* `Binary64.shortest` — of the decimals that read back, one with the fewest digits, and of these the nearest.
* `Binary64.exponentText`, `Binary64.plainText` — the two ways in which such a decimal is laid out here.
-/

namespace Criteria.Number

/-- `digits` times ten to `exponent`. -/
structure Decimal where
  digits : Nat
  exponent : Int
  deriving DecidableEq

/-- Which of two equally near decimals is taken. -/
inductive Tie where
  | even
  | up
  deriving DecidableEq

namespace Decimal

/-- The same number without zeros at the end of its digits; `room` bounds how many are dropped. -/
def stripZeros : (room : Nat) → Decimal → Decimal
  | 0, d => d
  | room + 1, d => if d.digits % 10 = 0 then stripZeros room ⟨d.digits / 10, d.exponent + 1⟩ else d

/-- The decimal is the one that the magnitude of `x` is nearest to, among the numbers of its kind. -/
def readsBack (d : Decimal) (x : Binary64) : Bool :=
  (Binary64.ofDecimal d.digits d.exponent).magnitudeBits == x.magnitudeBits

end Decimal

namespace Binary64

/-- A finite magnitude as a quotient of natural numbers. -/
def ratio (x : Binary64) : Nat × Nat :=
  let (m, e) := x.decode
  (m * powTwo e.toNat, powTwo (-e).toNat)

/-- The least `k` with `num / den` below ten to `k`, for positive arguments. The binary logarithm is within one of the
answer's, and three tenths of it is within one of the decimal one. -/
def decimalPlaces (num den : Nat) : Int :=
  let start : Int := (floorLog2 num den * 30103) / 100000 - 1
  let below (k : Int) : Bool := num * powTen (-k).toNat < den * powTen k.toNat
  if below start then start
  else if below (start + 1) then start + 1
  else if below (start + 2) then start + 2
  else start + 3

/-- The two neighbours of `num / den` among the multiples of ten to `grid`; the nearer one of those that read back. -/
def onGrid? (tie : Tie) (x : Binary64) (num den : Nat) (grid : Int) : Option Decimal :=
  let n := num * powTen (-grid).toNat
  let d := den * powTen grid.toNat
  let low := n / d
  let lower : Decimal := ⟨low, grid⟩
  let upper : Decimal := ⟨low + 1, grid⟩
  match lower.readsBack x, upper.readsBack x with
  | true, true =>
    match compare (2 * n) ((2 * low + 1) * d) with
    | .lt => some lower
    | .gt => some upper
    | .eq => some (if tie = .even ∧ low % 2 = 0 then lower else upper)
  | true, false => some lower
  | false, true => some upper
  | false, false => none

/-- The shortest decimal of a finite magnitude: the coarsest of the grids with one to seventeen digits that has a
neighbour which reads back. -/
def shortest (tie : Tie) (x : Binary64) : Decimal :=
  let (num, den) := x.ratio
  if num = 0 then ⟨0, 0⟩
  else
    let places := decimalPlaces num den
    match (List.range 17).findSome? fun (n : Nat) => onGrid? tie x num den (places - (n + 1)) with
    | some d => d.stripZeros 18
    | none => ⟨num * powTen (17 - places).toNat / (den * powTen (places - 17).toNat), places - 17⟩

/-- A sign, for a negative number or a negative zero. -/
def signText (x : Binary64) : String := if x.isNegative then "-" else ""

/-- The digits of a decimal with a point after the first `point` of them, and zeros where digits are missing. A point at
the end is left out. -/
def placePoint (digits : List Char) (point : Int) : List Char :=
  if point ≤ 0 then '0' :: '.' :: (List.replicate (-point).toNat '0' ++ digits)
  else if point < digits.length then digits.take point.toNat ++ '.' :: digits.drop point.toNat
  else digits ++ List.replicate (point - digits.length).toNat '0'

/-- Ten to a power as it follows the digits: a mark and a signed number. -/
def powerText (e : Int) : List Char :=
  'e' :: (if e < 0 then '-' else '+') :: Nat.toDigits 10 e.natAbs

/-- The digits of a whole number in base ten. -/
def digitChars (n : Nat) : List Char := Nat.toDigits 10 n

/-- A finite number with a fraction digit at least, where the leading digit stands between the fifth place after the
point and the sixteenth before it; else with one digit before the point and a power of ten. Ties go to even digits. -/
def exponentText (x : Binary64) : String :=
  let d := x.shortest .even
  let digits := digitChars d.digits
  let point : Int := digits.length + d.exponent
  let body :=
    if d.digits = 0 then ['0', '.', '0']
    else if -5 < point ∧ point ≤ 16 then
      placePoint digits point ++ (if digits.length ≤ point then ['.', '0'] else [])
    else placePoint digits 1 ++ powerText (point - 1)
  signText x ++ String.ofList body

/-- Any number without a power of ten, a whole one without a point, and names for the others. Ties go up. -/
def plainText (x : Binary64) : String :=
  if x.isNaN then "NaN"
  else
    let d := x.shortest .up
    let digits := digitChars d.digits
    let body :=
      if !x.isFinite then "inf".toList
      else if d.digits = 0 then ['0']
      else placePoint digits (digits.length + d.exponent)
    signText x ++ String.ofList body

end Binary64

end Criteria.Number
