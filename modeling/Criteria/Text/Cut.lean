/-!
# Cutting and joining text

* `afterStart?`, `beforeEnd?` — what is left of a text without a given start or end.
* `splitOn` — the pieces between occurrences of a separator, found from the left without overlap.
* `join` — pieces with a separator between them.
* `lower`, `sameLetters` — case is a matter of the letters A to Z alone.
-/

namespace Criteria.Text

/-- What follows `start`, if the text begins with it. -/
def afterStart? (start s : String) : Option String :=
  (start.toList.isPrefixOf? s.toList).map String.ofList

/-- What stands before `ending`, if the text ends with it. -/
def beforeEnd? (ending s : String) : Option String :=
  (ending.toList.isSuffixOf? s.toList).map String.ofList

/-- Pieces between occurrences of `sep`; `skip` characters belong to an occurrence already found, and `piece` holds
what has been read of the current piece. -/
def splitFrom (sep : List Char) (skip : Nat) (piece : List Char) : List Char → List (List Char)
  | [] => [piece]
  | c :: cs =>
    match skip with
    | k + 1 => splitFrom sep k piece cs
    | 0 =>
      if sep.isPrefixOf (c :: cs) then piece :: splitFrom sep (sep.length - 1) [] cs
      else splitFrom sep 0 (piece ++ [c]) cs

/-- The pieces between the occurrences of a non-empty separator; a text without one is a single piece. -/
def splitOn (sep s : String) : List String :=
  (splitFrom sep.toList 0 [] s.toList).map String.ofList

/-- Whether `part` stands somewhere in the text. -/
def containsChars (part : List Char) : List Char → Bool
  | [] => part.isEmpty
  | c :: cs => part.isPrefixOf (c :: cs) || containsChars part cs

/-- Whether `part` stands somewhere in the text. -/
def contains (part s : String) : Bool := containsChars part.toList s.toList

/-- The pieces in order with `sep` between them. -/
def join (sep : String) : List String → String
  | [] => ""
  | [s] => s
  | s :: t :: rest => s ++ sep ++ join sep (t :: rest)

/-- Turns A to Z into a to z. -/
def lower (s : String) : String := String.ofList (s.toList.map Char.toLower)

/-- Equal but for the case of the letters A to Z. -/
def sameLetters (s t : String) : Bool := lower s == lower t

theorem splitFrom_ne_nil (sep : List Char) (skip : Nat) (piece cs : List Char) :
    splitFrom sep skip piece cs ≠ [] := by
  induction cs generalizing skip piece with
  | nil => simp [splitFrom]
  | cons c cs ih =>
    cases skip with
    | succ k => simpa [splitFrom] using ih k piece
    | zero =>
      simp only [splitFrom]
      split
      · simp
      · exact ih 0 _

theorem splitOn_ne_nil (sep s : String) : splitOn sep s ≠ [] := by
  simp [splitOn, splitFrom_ne_nil]

end Criteria.Text
