/-!
# Blank text

* `isSpace` — the twenty-five characters with the property White_Space.
* `trim`, `isBlank` — a text without them at its ends, and whether nothing is left.
* `words` — the longest runs of other characters.
-/

namespace Criteria.Text

/-- The characters with the property White_Space. -/
def isSpace (c : Char) : Bool :=
  let n := c.toNat
  (9 ≤ n && n ≤ 13) || n == 0x20 || n == 0x85 || n == 0xA0 || n == 0x1680 ||
    (0x2000 ≤ n && n ≤ 0x200A) || n == 0x2028 || n == 0x2029 || n == 0x202F || n == 0x205F || n == 0x3000

/-- Drops the spaces at both ends. -/
def trimChars (cs : List Char) : List Char :=
  ((cs.dropWhile isSpace).reverse.dropWhile isSpace).reverse

/-- Drops the spaces at both ends. -/
def trim (s : String) : String := String.ofList (trimChars s.toList)

/-- A text of spaces only, the empty text among them. -/
def isBlank (s : String) : Bool := s.toList.all isSpace

/-- The runs of characters between spaces; `run` holds what has been read of the current one. -/
def wordsFrom (run : List Char) : List Char → List (List Char)
  | [] => if run = [] then [] else [run]
  | c :: cs =>
    if isSpace c then
      if run = [] then wordsFrom [] cs else run :: wordsFrom [] cs
    else wordsFrom (run ++ [c]) cs

/-- The longest runs without spaces, in order; none of them is empty. -/
def words (s : String) : List String := (wordsFrom [] s.toList).map String.ofList

end Criteria.Text
