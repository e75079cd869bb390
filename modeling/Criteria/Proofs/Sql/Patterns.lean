import Criteria.Predicate.Term
import Mathlib.Data.List.Infix

/-!
# Pattern matches

* `Sign`, `signs?`, `fits` — a pattern read with the rules of LIKE: a percent sign asks for any characters, an
  underscore for any one character, and an escaping character makes the next one literal.
* `likeTruth` — the truth of a match, which is unknown of a null.
* `escapePattern_eq` — escaping a text is escaping one sign after the other, the backslash first.
* `signsFrom?_escapePattern`, `fits_chars` — an escaped text reads as its characters, and these fit themselves alone.
* `term_finds` — the predicates that look for a text anywhere, at the start or at the end find it just where it is,
  whatever its characters, and their negations just where it is not.
-/

namespace Criteria

namespace Sql

/-! ## The rules of LIKE -/

/-- What a pattern asks for. -/
inductive Sign where
  | char (c : Char)
  /-- Any one character. -/
  | one
  /-- Any characters, and also none. -/
  | many
  deriving DecidableEq

/-- The sign of a character that is not escaped. -/
def Sign.ofChar (c : Char) : Sign := if c = '%' then many else if c = '_' then one else char c

/-- The signs of the rest of a pattern, of which the first character may be escaped by the one before it; there are none
if nothing follows an escaping character. -/
def signsFrom? (escape : Option Char) (escaped : Bool) : List Char → Option (List Sign)
  | [] => if escaped then none else some []
  | c :: cs =>
    if escaped then (signsFrom? escape false cs).map (.char c :: ·)
    else if escape = some c then signsFrom? escape true cs
    else (signsFrom? escape false cs).map (.ofChar c :: ·)

/-- The signs of a pattern. -/
def signs? (escape : Option Char) (pattern : String) : Option (List Sign) := signsFrom? escape false pattern.toList

/-- Whether a text is what signs ask for. -/
def fits : List Sign → List Char → Bool
  | [], s => s.isEmpty
  | .many :: signs, s => s.tails.any (fits signs)
  | .one :: signs, s => !s.isEmpty && fits signs s.tail
  | .char c :: signs, s => s.head? == some c && fits signs s.tail

/-- Whether a text matches a pattern. -/
def isLike (escape : Option Char) (pattern s : String) : Bool :=
  match signs? escape pattern with
  | some signs => fits signs s.toList
  | none => false

/-- The truth value of a pattern match on a value, or on a null; backslashes may be declared to escape. -/
def likeTruth (pattern : String) (negated escaped : Bool) (value : Option String) : Option Bool :=
  value.map fun s => isLike (if escaped then some '\\' else none) pattern s != negated

/-! ## Escaped texts -/

/-- A text in which every occurrence of one character is escaped. -/
def escapeOne (c : Char) (cs : List Char) : List Char := cs.flatMap fun d => if d = c then ['\\', d] else [d]

theorem escapePattern_eq (s : String) :
    escapePattern s = String.ofList (escapeOne '_' (escapeOne '%' (escapeOne '\\' s.toList))) := by
  unfold escapePattern escapeOne
  rw [List.flatMap_assoc, List.flatMap_assoc]
  congr 2
  funext c
  -- the backslashes that escape the other two signs are not escaped again
  by_cases hback : c = '\\'
  · simp [escapePatternChar, hback]
  · by_cases hpercent : c = '%'
    · simp [escapePatternChar, hpercent]
    · by_cases hunder : c = '_' <;> simp [escapePatternChar, hback, hpercent, hunder]

theorem signsFrom?_escapePatternChar (c : Char) (cs : List Char) :
    signsFrom? (some '\\') false (escapePatternChar c ++ cs) =
      (signsFrom? (some '\\') false cs).map (.char c :: ·) := by
  unfold escapePatternChar
  split
  · simp [signsFrom?]
  · rename_i hplain
    simp only [not_or] at hplain
    obtain ⟨hback, hpercent, hunder⟩ := hplain
    simp [signsFrom?, Sign.ofChar, Ne.symm hback, hpercent, hunder]

/-- An escaped text reads as its characters, in front of the signs of what follows it. -/
theorem signsFrom?_escapePattern (s : String) (cs : List Char) :
    signsFrom? (some '\\') false ((escapePattern s).toList ++ cs) =
      (signsFrom? (some '\\') false cs).map (s.toList.map .char ++ ·) := by
  rw [escapePattern, String.toList_ofList]
  induction s.toList with
  | nil => simp
  | cons c rest ih =>
    rw [List.flatMap_cons, List.append_assoc, signsFrom?_escapePatternChar, ih, Option.map_map]
    rfl

/-- Characters fit themselves, and what follows them fits what follows. -/
theorem fits_chars (cs : List Char) (signs : List Sign) (s : List Char) :
    fits (cs.map .char ++ signs) s = true ↔ ∃ rest, s = cs ++ rest ∧ fits signs rest = true := by
  induction cs generalizing s with
  | nil => simp
  | cons c cs ih =>
    cases s with
    | nil => simp [fits]
    | cons d s => simp [fits, ih, and_assoc]

theorem fits_many (signs : List Sign) (s : List Char) :
    fits (.many :: signs) s = true ↔ ∃ rest, rest <:+ s ∧ fits signs rest = true := by
  simp [fits]

end Sql

/-! ## Looking for a text -/

/-- Where a text is looked for in another one. -/
inductive Site where
  | anywhere
  | atStart
  | atEnd
  deriving DecidableEq

namespace Site

/-- The predicate that looks for a text there. -/
def finder : Site → Predicate
  | anywhere => .cont
  | atStart => .start
  | atEnd => .ending

/-- The predicate that asks for its absence there. -/
def avoider : Site → Predicate
  | anywhere => .notCont
  | atStart => .notStart
  | atEnd => .notEnding

/-- A text stands there in another one. -/
def Holds : Site → String → String → Prop
  | anywhere, v, s => v.toList <:+: s.toList
  | atStart, v, s => v.toList <+: s.toList
  | atEnd, v, s => v.toList <:+ s.toList

/-- The pattern of a text to be found there. -/
def pattern : Site → String → String
  | anywhere, v => "%" ++ escapePattern v ++ "%"
  | atStart, v => escapePattern v ++ "%"
  | atEnd, v => "%" ++ escapePattern v

/-- The signs of that pattern. -/
def signs : Site → String → List Sql.Sign
  | anywhere, v => .many :: (v.toList.map .char ++ [.many])
  | atStart, v => v.toList.map .char ++ [.many]
  | atEnd, v => .many :: (v.toList.map .char ++ [])

theorem signs?_pattern (site : Site) (v : String) : Sql.signs? (some '\\') (site.pattern v) = some (site.signs v) := by
  have hescape := Sql.signsFrom?_escapePattern v
  cases site with
  | anywhere => simp [pattern, signs, Sql.signs?, Sql.signsFrom?, Sql.Sign.ofChar, hescape]
  | atStart => simp [pattern, signs, Sql.signs?, Sql.signsFrom?, Sql.Sign.ofChar, hescape]
  | atEnd =>
    have hend := hescape []
    rw [List.append_nil] at hend
    simp [pattern, signs, Sql.signs?, Sql.signsFrom?, Sql.Sign.ofChar, hend]

theorem fits_signs (site : Site) (v s : String) : Sql.fits (site.signs v) s.toList = true ↔ site.Holds v s := by
  cases site with
  | anywhere =>
    simp only [signs, Sql.fits_many, Sql.fits_chars, Holds]
    constructor
    · rintro ⟨_, hsuffix, rest, rfl, -⟩
      exact List.IsInfix.trans (List.prefix_append _ _).isInfix hsuffix.isInfix
    · rintro ⟨before, after, h⟩
      refine ⟨v.toList ++ after, ⟨before, by rw [← h, List.append_assoc]⟩, after, rfl, ?_⟩
      simp [Sql.fits]
  | atStart =>
    simp only [signs, Sql.fits_chars, Holds]
    constructor
    · rintro ⟨rest, h, -⟩
      exact ⟨rest, h.symm⟩
    · rintro ⟨rest, h⟩
      exact ⟨rest, h.symm, by simp [Sql.fits]⟩
  | atEnd =>
    simp only [signs, Sql.fits_many, Sql.fits_chars, Holds]
    simp [Sql.fits]

theorem isLike_pattern (site : Site) (v s : String) :
    Sql.isLike (some '\\') (site.pattern v) s = true ↔ site.Holds v s := by
  unfold Sql.isLike
  rw [signs?_pattern]
  exact fits_signs site v s

example : Sql.isLike (some '\\') (atEnd.pattern "0%") "100%" = true ∧
    Sql.isLike (some '\\') (atEnd.pattern "0%") "1000" = false := by decide

end Site

/-- The term of a predicate that looks for a text is true of just the texts that have it there, and the term of its
negation of just the texts that have not; neither is true of a null. -/
theorem Predicate.term_finds (site : Site) (v : String) (column : Column) :
    ∃ pattern, site.finder.term column (.value v) = .ok (.like column pattern false true) ∧
      site.avoider.term column (.value v) = .ok (.like column pattern true true) ∧
      ∀ value : Option String,
        (Sql.likeTruth pattern false true value = some true ↔ ∃ s, value = some s ∧ site.Holds v s) ∧
        (Sql.likeTruth pattern true true value = some true ↔ ∃ s, value = some s ∧ ¬ site.Holds v s) := by
  refine ⟨site.pattern v, ?_, ?_, ?_⟩
  · cases site <;> rfl
  · cases site <;> rfl
  · intro value
    cases value with
    | none => simp [Sql.likeTruth]
    | some s => simp [Sql.likeTruth, ← Site.isLike_pattern]

end Criteria
