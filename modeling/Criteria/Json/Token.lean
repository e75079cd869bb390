import Criteria.Number.Numeral

/-!
# Tokens of a JSON document

* `Token.ofChars?` divides a text into punctuation, names, numbers and strings, with white space between them.
* A string is read to its pieces first. `Piece.assemble?` joins pairs of surrogate units, and a unit without its partner
  leaves the string without a text. That is no fault of the document where nobody asks for the text.
-/

namespace Criteria

open Number (Numeral)

/-- A part of a quoted string: a character, or a unit of 16 bits given by its digits. -/
inductive Piece where
  | char (c : Char)
  | unit (n : Nat)

namespace Piece

/-- The text of the pieces: a leading surrogate unit and a trailing one make up a single character. -/
def assemble? : List Piece → Option (List Char)
  | [] => some []
  | .char c :: rest => (assemble? rest).map (c :: ·)
  | .unit high :: .unit low :: rest =>
    if 0xD800 ≤ high ∧ high ≤ 0xDBFF ∧ 0xDC00 ≤ low ∧ low ≤ 0xDFFF then
      (assemble? rest).map (Char.ofNat (0x10000 + (high - 0xD800) * 0x400 + (low - 0xDC00)) :: ·)
    else if 0xD800 ≤ high ∧ high ≤ 0xDFFF then none
    else (assemble? (.unit low :: rest)).map (Char.ofNat high :: ·)
  | .unit n :: rest =>
    if 0xD800 ≤ n ∧ n ≤ 0xDFFF then none else (assemble? rest).map (Char.ofNat n :: ·)

/-- The value of a digit in base sixteen, in either case. -/
def hexValue? (c : Char) : Option Nat :=
  if '0' ≤ c ∧ c ≤ '9' then some (c.toNat - 48)
  else if 'a' ≤ c ∧ c ≤ 'f' then some (c.toNat - 87)
  else if 'A' ≤ c ∧ c ≤ 'F' then some (c.toNat - 55)
  else none

/-- The unit of four digits in base sixteen. -/
def unit? (a b c d : Char) : Option Piece :=
  match hexValue? a, hexValue? b, hexValue? c, hexValue? d with
  | some a, some b, some c, some d => some (.unit (((a * 16 + b) * 16 + c) * 16 + d))
  | _, _, _, _ => none

/-- The character for the letter after a backslash. -/
def escaped? : Char → Option Char
  | '"' => some '"'
  | '\\' => some '\\'
  | '/' => some '/'
  | 'b' => some '\x08'
  | 'f' => some '\x0c'
  | 'n' => some '\n'
  | 'r' => some '\r'
  | 't' => some '\t'
  | _ => none

/-- The pieces up to the closing quote, and what follows it. Control characters below the space have to be escaped. -/
def read? : List Char → Option (List Piece × List Char)
  | [] => none
  | '"' :: rest => some ([], rest)
  | '\\' :: 'u' :: a :: b :: c :: d :: rest =>
    match unit? a b c d, read? rest with
    | some piece, some (pieces, rest) => some (piece :: pieces, rest)
    | _, _ => none
  | '\\' :: c :: rest =>
    match escaped? c, read? rest with
    | some c, some (pieces, rest) => some (.char c :: pieces, rest)
    | _, _ => none
  | c :: rest =>
    if c.toNat < 0x20 then none
    else
      match read? rest with
      | some (pieces, rest) => some (.char c :: pieces, rest)
      | none => none

theorem length_read? {cs rest : List Char} {pieces : List Piece} (h : read? cs = some (pieces, rest)) :
    rest.length < cs.length := by
  fun_induction read? cs generalizing pieces rest <;> simp_all <;> grind

end Piece

/-- A token. The text of a string is missing if its units do not pair up. -/
inductive Token where
  | openArray
  | closeArray
  | openObject
  | closeObject
  | colon
  | comma
  | null
  | bool (b : Bool)
  | number (n : Numeral)
  | string (text : Option String)

namespace Token

/-- The four characters that separate tokens. -/
def isGap (c : Char) : Bool := c == ' ' || c == '\n' || c == '\r' || c == '\t'

/-- Punctuation. -/
def mark? : Char → Option Token
  | '[' => some openArray
  | ']' => some closeArray
  | '\x7b' => some openObject
  | '\x7d' => some closeObject
  | ':' => some colon
  | ',' => some comma
  | _ => none

/-- The characters of names and numbers. -/
def isWordChar (c : Char) : Bool := c.isAlphanum || c == '+' || c == '-' || c == '.'

/-- The token of a run of such characters: a name or a strict numeral. -/
def ofWord? (word : List Char) : Option Token :=
  match String.ofList word with
  | "null" => some null
  | "true" => some (bool true)
  | "false" => some (bool false)
  | _ =>
    match Numeral.ofChars? word with
    | some n => if n.isStrict then some (number n) else none
    | none => none

/-- The tokens of a whole text. -/
def ofChars? : List Char → Option (List Token)
  | [] => some []
  | c :: cs =>
    if isGap c then ofChars? cs
    else
      match mark? c with
      | some mark => (ofChars? cs).map (mark :: ·)
      | none =>
        if c = '"' then
          match h : Piece.read? cs with
          | some (pieces, rest) =>
            have : rest.length < cs.length := Piece.length_read? h
            (ofChars? rest).map (string ((Piece.assemble? pieces).map String.ofList) :: ·)
          | none => none
        else if isWordChar c then
          have : (cs.dropWhile isWordChar).length ≤ cs.length := (List.dropWhile_sublist _).length_le
          match ofWord? (c :: cs.takeWhile isWordChar) with
          | some word => (ofChars? (cs.dropWhile isWordChar)).map (word :: ·)
          | none => none
        else none
termination_by cs => cs.length

end Token

end Criteria
