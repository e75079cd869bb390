/-!
# Numerals

How a number is written, before it has a value.

* `Numeral.ofChars?` splits a text into sign, digits, fraction and exponent.
* `Numeral.magnitude` is the number written, without its sign, as digits times a power of ten.
* `natural?`, `integer?` read whole numbers of any size; `index?` and `int64?` keep those of 64 bits.
-/

namespace Criteria.Number

/-- A power of two. -/
def powTwo (n : Nat) : Nat := Nat.pow 2 n

/-- A power of ten. -/
def powTen (n : Nat) : Nat := Nat.pow 10 n

/-- The digits 0 to 9. -/
def isDigit (c : Char) : Bool := '0' ≤ c && c ≤ '9'

/-- The number that digits write in base ten. -/
def digitsValue (digits : List Char) : Nat :=
  digits.foldl (fun n c => 10 * n + (c.toNat - '0'.toNat)) 0

/-- A sign as written. -/
inductive Sign where
  | plus
  | minus
  deriving DecidableEq

/-- The sign in front of a text, and the rest. -/
def Sign.take : List Char → Option Sign × List Char
  | '+' :: cs => (some .plus, cs)
  | '-' :: cs => (some .minus, cs)
  | cs => (none, cs)

/-- One or more digits and nothing else, with or without leading zeros. -/
def natural? (cs : List Char) : Option Nat :=
  if cs ≠ [] ∧ cs.all isDigit then some (digitsValue cs) else none

/-- An optional sign and one or more digits. -/
def integer? (cs : List Char) : Option Int :=
  match Sign.take cs with
  | (some .minus, ds) => (natural? ds).map fun n => -(n : Int)
  | (_, ds) => (natural? ds).map fun n => (n : Int)

/-- An integer of 64 bits. -/
def int64? (s : String) : Option Int :=
  match integer? s.toList with
  | some n => if -(powTwo 63 : Int) ≤ n ∧ n < powTwo 63 then some n else none
  | none => none

/-- A position: an unsigned number of 64 bits, with an optional plus sign. -/
def index? (s : String) : Option Nat :=
  match Sign.take s.toList with
  | (some .minus, _) => none
  | (_, ds) =>
    match natural? ds with
    | some n => if n < powTwo 64 then some n else none
    | none => none

/-- The parts of a number as written. A part that is absent differs from one without digits. -/
structure Numeral where
  sign : Option Sign
  whole : List Char
  fraction : Option (List Char)
  exponent : Option (Option Sign × List Char)
  deriving DecidableEq

namespace Numeral

/-- The digits in front and the rest. -/
def takeDigits (cs : List Char) : List Char × List Char := (cs.takeWhile isDigit, cs.dropWhile isDigit)

/-- The digits after a point, if a point comes next. -/
def takeFraction : List Char → Option (List Char) × List Char
  | '.' :: cs => (some (takeDigits cs).1, (takeDigits cs).2)
  | cs => (none, cs)

/-- The whole of an exponent part: its sign and its digits, to the end of the text. -/
def takeExponent? : List Char → Option (Option (Option Sign × List Char))
  | [] => some none
  | c :: cs =>
    if (c = 'e' ∨ c = 'E') ∧ (Sign.take cs).2.all isDigit then some (some (Sign.take cs)) else none

/-- Splits a whole text; any part may be without digits. -/
def ofChars? (cs : List Char) : Option Numeral :=
  let (sign, cs) := Sign.take cs
  let (whole, cs) := takeDigits cs
  let (fraction, cs) := takeFraction cs
  (takeExponent? cs).map fun exponent => ⟨sign, whole, fraction, exponent⟩

/-- All digits before the exponent. -/
def digits (n : Numeral) : List Char := n.whole ++ n.fraction.getD []

/-- The exponent as a number; zero if there is none. -/
def exponentValue (n : Numeral) : Int :=
  match n.exponent with
  | none => 0
  | some (some .minus, ds) => -(digitsValue ds : Int)
  | some (_, ds) => digitsValue ds

/-- The number without its sign is the first component times ten to the second. -/
def magnitude (n : Numeral) : Nat × Int :=
  (digitsValue n.digits, n.exponentValue - (n.fraction.getD []).length)

/-- Whether there is a minus sign. -/
def isNegative (n : Numeral) : Bool := n.sign == some .minus

/-- An exponent part has at least one digit. -/
def exponentOk (n : Numeral) : Bool :=
  match n.exponent with
  | none => true
  | some (_, ds) => !ds.isEmpty

/-- A free numeral: either sign, and at least one digit before or after the point. -/
def isFree (n : Numeral) : Bool := !n.digits.isEmpty && n.exponentOk

/-- A strict numeral: no plus sign, no leading zero, and digits on both sides of a point. -/
def isStrict (n : Numeral) : Bool :=
  n.sign != some .plus &&
    (n.whole == ['0'] || (!n.whole.isEmpty && n.whole.head? != some '0')) &&
    n.fraction != some [] && n.exponentOk

end Numeral

end Criteria.Number
