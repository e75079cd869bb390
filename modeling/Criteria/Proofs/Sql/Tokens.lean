import Criteria.Sql.Render
import Mathlib.Data.List.TakeWhile

/-!
# The tokens of a query

A query is read as a database reads it: names in double quotes and literals in single quotes hide what is in them, and a
quote written twice stands for one.

* `Token`, `tokens` — the words, names, placeholders and signs of a text, in order.
* `stops` — whether a text begins with a character that ends any token before it.
* `tokens_append` — texts one after the other have the tokens of both, if the first closes its quotes and the second
  stops it.
-/

namespace Criteria.Sql

/-! ## Reading tokens -/

/-- A word with a meaning in conditions, or one that ends them. -/
inductive Keyword where
  | and
  | or
  | not
  | is
  | null
  /-- The word before a list. -/
  | among
  | like
  | escape
  /-- The word before the condition of a query. -/
  | filter
  | group
  | order
  deriving DecidableEq

namespace Keyword

/-- Every keyword. -/
def all : List Keyword := [and, or, not, is, null, among, like, escape, filter, group, order]

/-- How a keyword is written. -/
def name : Keyword → String
  | and => "AND"
  | or => "OR"
  | not => "NOT"
  | is => "IS"
  | null => "NULL"
  | among => "IN"
  | like => "LIKE"
  | escape => "ESCAPE"
  | filter => "WHERE"
  | group => "GROUP"
  | order => "ORDER"

/-- The keyword that is written so. -/
def ofName? (s : String) : Option Keyword := all.find? fun k => k.name == s

end Keyword

/-- A token. -/
inductive Token where
  /-- A name in double quotes, without them. -/
  | name (s : String)
  /-- A literal in single quotes, without them. -/
  | literal (s : String)
  | keyword (k : Keyword)
  /-- Another word, or a number. -/
  | word (s : String)
  /-- The place of a bind value, and its position where that is written. -/
  | placeholder (position : Option Nat)
  | comparison (op : Comparison)
  /-- Any other character. -/
  | sign (c : Char)
  /-- A quote that is not closed. -/
  | unclosed
  deriving DecidableEq

/-- What stands before the closing quote, and what follows it. -/
def quoted (quote : Char) : List Char → Option (List Char × List Char)
  | [] => none
  | [c] => if c = quote then some ([], []) else none
  | c :: d :: cs =>
    if c = quote then
      if d = quote then (quoted quote cs).map fun (inner, rest) => (quote :: inner, rest) else some ([], d :: cs)
    else (quoted quote (d :: cs)).map fun (inner, rest) => (c :: inner, rest)

/-- The characters of words and numbers. -/
def isWordChar (c : Char) : Bool := c.isAlphanum || c == '_'

/-- A word as a token. -/
def wordToken (cs : List Char) : Token :=
  match Keyword.ofName? (String.ofList cs) with
  | some k => .keyword k
  | none => .word (String.ofList cs)

/-- What stands between quotes as a token. -/
def quotedToken (make : String → Token) : Option (List Char × List Char) → Token × List Char
  | some (inner, rest) => (make (String.ofList inner), rest)
  | none => (.unclosed, [])

/-- The comparison that begins with "less than". -/
def afterLess : List Char → Token × List Char
  | '=' :: cs => (.comparison .lteq, cs)
  | '>' :: cs => (.comparison .notEq, cs)
  | cs => (.comparison .lt, cs)

/-- The comparison that begins with "greater than". -/
def afterGreater : List Char → Token × List Char
  | '=' :: cs => (.comparison .gteq, cs)
  | cs => (.comparison .gt, cs)

/-- The token that begins with a character, and what follows it. -/
def next (c : Char) (cs : List Char) : Token × List Char :=
  if c = '"' then quotedToken .name (quoted '"' cs)
  else if c = '\'' then quotedToken .literal (quoted '\'' cs)
  else if c = '?' then (.placeholder none, cs)
  else if c = '$' then
    (.placeholder (some (Nat.ofDigitChars 10 (cs.takeWhile Char.isDigit) 0)), cs.dropWhile Char.isDigit)
  else if isWordChar c then (wordToken (c :: cs.takeWhile isWordChar), cs.dropWhile isWordChar)
  else if c = '=' then (.comparison .eq, cs)
  else if c = '<' then afterLess cs
  else if c = '>' then afterGreater cs
  else (.sign c, cs)

theorem length_quoted {quote : Char} {cs inner rest : List Char} (h : quoted quote cs = some (inner, rest)) :
    rest.length ≤ cs.length := by
  fun_induction quoted quote cs generalizing inner rest with
  | case1 => cases h
  | case2 =>
    cases h
    exact Nat.zero_le _
  | case3 => cases h
  | case4 cs ih =>
    obtain ⟨⟨inner', rest'⟩, hq, heq⟩ := Option.map_eq_some_iff.1 h
    cases heq
    have hle := ih hq
    simp only [List.length_cons]
    omega
  | case5 =>
    cases h
    exact Nat.le_succ _
  | case6 c d cs hc ih =>
    obtain ⟨⟨inner', rest'⟩, hq, heq⟩ := Option.map_eq_some_iff.1 h
    cases heq
    have hle := ih hq
    simp only [List.length_cons] at hle ⊢
    omega

theorem length_quotedToken {make : String → Token} {quote : Char} (cs : List Char) :
    (quotedToken make (quoted quote cs)).2.length ≤ cs.length := by
  cases h : quoted quote cs with
  | none => exact Nat.zero_le _
  | some found => exact length_quoted h

theorem length_next (c : Char) (cs : List Char) : (next c cs).2.length ≤ cs.length := by
  unfold next
  split
  · exact length_quotedToken cs
  split
  · exact length_quotedToken cs
  split
  · exact Nat.le_refl _
  split
  · exact (List.dropWhile_sublist _).length_le
  split
  · exact (List.dropWhile_sublist _).length_le
  split
  · exact Nat.le_refl _
  split
  · unfold afterLess
    split <;> simp
  split
  · unfold afterGreater
    split <;> simp
  · exact Nat.le_refl _

/-- The tokens of a text in order. -/
def tokens : List Char → List Token
  | [] => []
  | c :: cs => if c = ' ' then tokens cs else (next c cs).1 :: tokens (next c cs).2
termination_by cs => cs.length
decreasing_by
  · exact Nat.lt_succ_self _
  · exact Nat.lt_succ_of_le (length_next c cs)

theorem tokens_space (cs : List Char) : tokens (' ' :: cs) = tokens cs := by
  rw [tokens, if_pos rfl]

theorem tokens_cons {c : Char} (hc : c ≠ ' ') (cs : List Char) :
    tokens (c :: cs) = (next c cs).1 :: tokens (next c cs).2 := by
  rw [tokens, if_neg hc]

/-! ## Texts one after the other -/

/-- The characters that end the token before them. -/
def stopChars : List Char := [' ', '.', ',', ')']

/-- Whether a text begins with a character that ends the token before it, if it begins at all. -/
def stops : List Char → Bool
  | [] => true
  | c :: _ => stopChars.contains c

variable {rest : List Char}

/-- A run of characters ends where the text stops. -/
theorem run_append {p : Char → Bool} (hp : stopChars.any p = false) (hs : stops rest = true) (cs : List Char) :
    (cs ++ rest).takeWhile p = cs.takeWhile p ∧ (cs ++ rest).dropWhile p = cs.dropWhile p ++ rest := by
  induction cs with
  | nil =>
    cases rest with
    | nil => exact ⟨rfl, rfl⟩
    | cons c rest =>
      have hc : ¬ p c = true := List.any_eq_false.1 hp c (by simpa [stops] using hs)
      simp [hc]
  | cons c cs ih =>
    by_cases hc : p c = true <;> simp [hc, ih]

theorem quoted_append {quote : Char} (hquote : quote ∉ stopChars) (hs : stops rest = true) {cs inner tail : List Char}
    (h : quoted quote cs = some (inner, tail)) : quoted quote (cs ++ rest) = some (inner, tail ++ rest) := by
  fun_induction quoted quote cs generalizing inner tail with
  | case1 => cases h
  | case2 =>
    cases h
    -- the closing quote is not doubled by what follows
    cases rest with
    | nil => simp [quoted]
    | cons d rest =>
      have hd : d ≠ quote := by
        rintro rfl
        exact hquote (by simpa [stops] using hs)
      simp [quoted, hd]
  | case3 => cases h
  | case4 cs ih =>
    obtain ⟨⟨inner', tail'⟩, hq, heq⟩ := Option.map_eq_some_iff.1 h
    cases heq
    simp [quoted, ih hq]
  | case5 d cs hd =>
    cases h
    simp [quoted, hd]
  | case6 c d cs hc ih =>
    obtain ⟨⟨inner', tail'⟩, hq, heq⟩ := Option.map_eq_some_iff.1 h
    cases heq
    have hmore := ih hq
    rw [List.cons_append] at hmore
    simp [quoted, hc, hmore]

theorem quotedToken_append {make : String → Token} {quote : Char} (hquote : quote ∉ stopChars) (hs : stops rest = true)
    {cs : List Char} (h : (quotedToken make (quoted quote cs)).1 ≠ .unclosed) :
    quotedToken make (quoted quote (cs ++ rest)) =
      ((quotedToken make (quoted quote cs)).1, (quotedToken make (quoted quote cs)).2 ++ rest) := by
  cases hq : quoted quote cs with
  | none =>
    rw [hq] at h
    exact absurd rfl h
  | some found =>
    rw [quoted_append hquote hs hq]
    rfl

theorem afterLess_append (hs : stops rest = true) (cs : List Char) :
    afterLess (cs ++ rest) = ((afterLess cs).1, (afterLess cs).2 ++ rest) := by
  cases cs with
  | nil =>
    cases rest with
    | nil => rfl
    | cons c rest =>
      have hc : c ∈ stopChars := by simpa [stops] using hs
      have hne : c ≠ '=' ∧ c ≠ '>' := by
        constructor <;> rintro rfl <;> exact absurd hc (by decide)
      rw [List.nil_append]
      unfold afterLess
      split <;> simp_all
  | cons c cs =>
    rw [List.cons_append]
    unfold afterLess
    split <;> simp_all

theorem afterGreater_append (hs : stops rest = true) (cs : List Char) :
    afterGreater (cs ++ rest) = ((afterGreater cs).1, (afterGreater cs).2 ++ rest) := by
  cases cs with
  | nil =>
    cases rest with
    | nil => rfl
    | cons c rest =>
      have hc : c ∈ stopChars := by simpa [stops] using hs
      have hne : c ≠ '=' := by
        rintro rfl
        exact absurd hc (by decide)
      rw [List.nil_append]
      unfold afterGreater
      split <;> simp_all
  | cons c cs =>
    rw [List.cons_append]
    unfold afterGreater
    split <;> simp_all

/-- The next token is the same if the text stops behind it. -/
theorem next_append (hs : stops rest = true) {c : Char} {cs : List Char} (h : (next c cs).1 ≠ .unclosed) :
    next c (cs ++ rest) = ((next c cs).1, (next c cs).2 ++ rest) := by
  have hdigits := run_append (p := Char.isDigit) rfl hs cs
  have hword := run_append (p := isWordChar) rfl hs cs
  unfold next at h ⊢
  split
  · rename_i hc
    rw [if_pos hc] at h
    exact quotedToken_append (by decide) hs h
  split
  · rename_i hdouble hc
    rw [if_neg hdouble, if_pos hc] at h
    exact quotedToken_append (by decide) hs h
  split
  · rfl
  split
  · rw [hdigits.1, hdigits.2]
  split
  · rw [hword.1, hword.2]
  split
  · rfl
  split
  · exact afterLess_append hs cs
  split
  · exact afterGreater_append hs cs
  · rfl

/-- Texts one after the other have the tokens of both. -/
theorem tokens_append (hs : stops rest = true) {cs : List Char} (h : Token.unclosed ∉ tokens cs) :
    tokens (cs ++ rest) = tokens cs ++ tokens rest := by
  fun_induction tokens cs with
  | case1 => rfl
  | case2 cs ih =>
    rw [List.cons_append, tokens_space]
    exact ih h
  | case3 c cs hc ih =>
    rw [List.mem_cons, not_or] at h
    have hnext := next_append hs (Ne.symm h.1)
    rw [List.cons_append, tokens_cons hc, hnext]
    rw [ih h.2, List.cons_append]

/-- A text has these tokens, and closes its quotes. -/
def Reads (text : String) (ts : List Token) : Prop := tokens text.toList = ts ∧ Token.unclosed ∉ ts

instance (text : String) (ts : List Token) : Decidable (Reads text ts) :=
  inferInstanceAs (Decidable (tokens text.toList = ts ∧ Token.unclosed ∉ ts))

theorem Reads.append {text more : String} {ts us : List Token} (h : Reads text ts) (hmore : Reads more us)
    (hs : stops more.toList = true) : Reads (text ++ more) (ts ++ us) := by
  obtain ⟨rfl, hclosed⟩ := h
  obtain ⟨rfl, hclosed'⟩ := hmore
  constructor
  · rw [String.toList_append]
    exact tokens_append hs hclosed
  · rw [List.mem_append, not_or]
    exact ⟨hclosed, hclosed'⟩

/-! ## Names and placeholders -/

theorem quoted_quoteNameChars (name : List Char) :
    quoted '"' (name.flatMap quoteNameChar ++ ['"']) = some (name, []) := by
  induction name with
  | nil => rfl
  | cons c name ih =>
    by_cases hc : c = '"'
    · subst hc
      simp [quoteNameChar, quoted, ih]
    · obtain ⟨d, cs, hcs⟩ := List.exists_cons_of_ne_nil
        (show name.flatMap quoteNameChar ++ ['"'] ≠ [] from List.append_ne_nil_of_right_ne_nil _ (List.cons_ne_nil _ _))
      rw [hcs] at ih
      rw [List.flatMap_cons, List.append_assoc, hcs]
      simp [quoteNameChar, hc, quoted, ih]

/-- A quoted name is one token, whatever characters it has. -/
theorem reads_quoteName (name : String) : Reads (quoteName name) [.name name] := by
  constructor
  · have hlist : (quoteName name).toList = '"' :: (name.toList.flatMap quoteNameChar ++ ['"']) := by
      simp only [quoteName, String.toList_append, String.toList_ofList]
      rfl
    rw [hlist, tokens_cons (by decide)]
    have hnext : next '"' (name.toList.flatMap quoteNameChar ++ ['"']) = (.name name, []) := by
      rw [next, if_pos rfl, quoted_quoteNameChars, quotedToken, String.ofList_toList]
    rw [hnext, tokens]
  · exact fun h => nomatch List.mem_singleton.1 h

/-- The placeholder of a position as a token. -/
def mark (b : Backend) (position : Nat) : Token :=
  match b with
  | .postgres => .placeholder (some position)
  | _ => .placeholder none

theorem reads_placeholder (b : Backend) (position : Nat) : Reads (b.placeholder position) [mark b position] := by
  have hquestion : Reads "?" [.placeholder none] := by decide +kernel
  cases b with
  | sqlite => exact hquestion
  | duckdb => exact hquestion
  | postgres =>
    have hlist : (Backend.postgres.placeholder position).toList = '$' :: Nat.toDigits 10 position := by
      simp only [Backend.placeholder, String.toList_append, Nat.toString_eq_ofList_toDigits, String.toList_ofList]
      rfl
    constructor
    · rw [hlist, tokens_cons (by decide)]
      have hdigits : ∀ c ∈ Nat.toDigits 10 position, c.isDigit = true := by
        intro c hc
        exact Nat.isDigit_of_mem_toDigits (by decide) (by decide) hc
      have hnext : next '$' (Nat.toDigits 10 position) = (.placeholder (some position), []) := by
        unfold next
        rw [if_neg (by decide), if_neg (by decide), if_neg (by decide), if_pos rfl,
          List.takeWhile_eq_self_iff.2 hdigits, List.dropWhile_eq_nil_iff.2 hdigits, Nat.ofDigitChars_ten_toDigits]
      rw [hnext, tokens]
      rfl
    · exact fun h => nomatch List.mem_singleton.1 h

end Criteria.Sql
