import Criteria.Number.Numeral

/-!
# Binary floating-point numbers of 64 bits

A number is kept as its bits, and every operation here is exact arithmetic on natural numbers followed by one rounding,
to the nearest representable number with ties to the even one.

* `Binary64.ofRatio` rounds a quotient of natural numbers.
* `Binary64.ofDecimal` rounds digits times a power of ten.
* `Binary64.ofString?` reads a free numeral, an infinity or a value that is no number.
* `Binary64.scaled` moves a whole number by decimal places in steps, each of them rounded.
-/

namespace Criteria.Number

/-- The bits of a number: a sign, eleven bits of exponent and fifty-two of fraction. -/
structure Binary64 where
  bits : UInt64
  deriving DecidableEq

namespace Binary64

/-- The magnitude bits of infinity. All greater ones are no number. -/
def infinityBits : Nat := 2047 * powTwo 52

def infinity : Binary64 := ⟨UInt64.ofNat infinityBits⟩

/-- The usual value that is no number. -/
def notANumber : Binary64 := ⟨UInt64.ofNat (infinityBits + powTwo 51)⟩

/-- The bits without the sign. -/
def magnitudeBits (x : Binary64) : Nat := x.bits.toNat % powTwo 63

def isNegative (x : Binary64) : Bool := powTwo 63 ≤ x.bits.toNat

def isNaN (x : Binary64) : Bool := infinityBits < x.magnitudeBits

def isFinite (x : Binary64) : Bool := x.magnitudeBits < infinityBits

/-- The number with a sign in front of a magnitude. -/
def withSign (negative : Bool) (x : Binary64) : Binary64 :=
  if negative then ⟨UInt64.ofNat (x.magnitudeBits + powTwo 63)⟩ else x

/-- A finite magnitude is the first component times two to the second. -/
def decode (x : Binary64) : Nat × Int :=
  let exponent : Nat := x.magnitudeBits / powTwo 52
  let fraction : Nat := x.magnitudeBits % powTwo 52
  if exponent = 0 then (fraction, -1074) else (powTwo 52 + fraction, (exponent : Int) - 1075)

/-- The quotient rounded to the nearest natural number, a half to the even one. -/
def roundQuotient (num den : Nat) : Nat :=
  let q := num / den
  let twice := 2 * (num % den)
  if twice < den then q else if twice > den then q + 1 else q + q % 2

/-- The greatest `e` with two to the `e` at most `num / den`, for positive arguments. -/
def floorLog2 (num den : Nat) : Int :=
  let e : Int := (num.log2 : Int) - den.log2
  if den * powTwo e.toNat ≤ num * powTwo (-e).toNat then e else e - 1

/-- The number nearest to `num / den`, for a positive `den`: infinity from the midpoint above the greatest finite
number on. -/
def ofRatio (num den : Nat) : Binary64 :=
  if num = 0 then ⟨0⟩
  else
    let unit : Int := max (floorLog2 num den - 52) (-1074)
    let steps := roundQuotient (num * powTwo (-unit).toNat) (den * powTwo unit.toNat)
    ⟨UInt64.ofNat (min ((unit + 1074).toNat * powTwo 52 + steps) infinityBits)⟩

/-- How many digits a positive number has in base ten. -/
def digitCount (n : Nat) : Nat := (Nat.toDigits 10 n).length

/-- The number nearest to `digits` times ten to `exponent`. The first two cases keep the powers small: below
`10 ^ (-330)` every number is nearest to zero, and from `10 ^ 310` on to infinity. -/
def ofDecimal (digits : Nat) (exponent : Int) : Binary64 :=
  if digits = 0 ∨ (digitCount digits : Int) + exponent < -330 then ⟨0⟩
  else if (digitCount digits : Int) + exponent > 310 then infinity
  else ofRatio (digits * powTen exponent.toNat) (powTen (-exponent).toNat)

/-- The names of the values without digits, in any case. -/
def special? (cs : List Char) : Option Binary64 :=
  match String.ofList (cs.map Char.toLower) with
  | "inf" | "infinity" => some infinity
  | "nan" => some notANumber
  | _ => none

/-- Reads a free numeral to the nearest number, or a signed special name. -/
def ofString? (s : String) : Option Binary64 :=
  let (sign, cs) := Sign.take s.toList
  match special? cs with
  | some x => some (withSign (sign == some .minus) x)
  | none =>
    match Numeral.ofChars? s.toList with
    | some n =>
      if n.isFree then some (withSign n.isNegative (ofDecimal n.magnitude.1 n.magnitude.2)) else none
    | none => none

/-- The rounded product of two finite magnitudes. -/
def times (x y : Binary64) : Binary64 :=
  let (m, e) := x.decode
  let (n, f) := y.decode
  ofRatio (m * n * powTwo (e + f).toNat) (powTwo (-(e + f)).toNat)

/-- The rounded quotient of two finite magnitudes, the second not zero. -/
def dividedBy (x y : Binary64) : Binary64 :=
  let (m, e) := x.decode
  let (n, f) := y.decode
  ofRatio (m * powTwo (e - f).toNat) (n * powTwo (f - e).toNat)

/-- The number nearest to a power of ten. -/
def powerOfTen (n : Nat) : Binary64 := ofDecimal 1 n

/-- The whole number `digits`, rounded, and then moved by `exponent` decimal places: by one rounded product, or by
rounded quotients with at most `10 ^ 308` each. There is no number where the product leaves the finite range. -/
def scaled (digits : Nat) (exponent : Int) : Option Binary64 :=
  let start := ofRatio digits 1
  let places := exponent.natAbs
  if digits = 0 then some start
  else if 0 ≤ exponent then
    if places ≤ 308 ∧ (start.times (powerOfTen places)).isFinite then some (start.times (powerOfTen places)) else none
  else if places ≤ 308 then some (start.dividedBy (powerOfTen places))
  else if places ≤ 616 then some ((start.dividedBy (powerOfTen 308)).dividedBy (powerOfTen (places - 308)))
  else some ⟨0⟩

end Binary64

end Criteria.Number
