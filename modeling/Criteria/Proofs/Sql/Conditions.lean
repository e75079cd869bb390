import Criteria.Proofs.Sql.Tokens

/-!
# Conditions of a query

* `Atom`, `Formula`, `Formula.holds` — tests of columns, joined by AND and OR, and their truth under an assignment to
  the atoms.
* `readOperand`, `readJoiner` — a condition read with the rules of SQL: AND binds tighter than OR, parentheses bind
  tighter still, and what stands in them is read on a `Level` of its own.
* `condition?` — the condition of a query, which stands behind its WHERE; a query without one has all rows.
-/

namespace Criteria.Sql

/-! ## Formulas -/

/-- What a column is compared with. -/
inductive Comparand where
  /-- The bind value at a position, counted from one. -/
  | bound (position : Nat)
  | word (s : String)
  deriving DecidableEq

/-- A test of a column. -/
inductive Test where
  | compare (op : Comparison) (comparand : Comparand)
  /-- A match with the pattern at a position, and the character that escapes others in it. -/
  | like (negated : Bool) (position : Nat) (escape : Option String)
  | inList (negated : Bool) (positions : List Nat)
  | isNull (negated : Bool)
  deriving DecidableEq

/-- A qualified column with a test of it. -/
structure Atom where
  qualifier : String
  column : String
  test : Test
  deriving DecidableEq

/-- A condition. -/
inductive Formula where
  | constant (value : Bool)
  | atom (a : Atom)
  | and (f g : Formula)
  | or (f g : Formula)
  deriving DecidableEq

/-- The truth value of a condition, given those of its atoms. -/
def Formula.holds (v : Atom → Bool) : Formula → Bool
  | constant value => value
  | atom a => v a
  | and f g => f.holds v && g.holds v
  | or f g => f.holds v || g.holds v

/-! ## Reading atoms -/

/-- The positions in a list up to its closing parenthesis. -/
def positions? : List Token → Option (List Nat × List Token)
  | .placeholder (some k) :: .sign ')' :: rest => some ([k], rest)
  | .placeholder (some k) :: .sign ',' :: rest => (positions? rest).map fun (ks, rest) => (k :: ks, rest)
  | _ => none

/-- The pattern of a match. -/
def likeTest? (negated : Bool) : List Token → Option (Test × List Token)
  | .placeholder (some k) :: .keyword .escape :: .literal s :: rest => some (.like negated k (some s), rest)
  | .placeholder (some k) :: rest => some (.like negated k none, rest)
  | _ => none

/-- The list of a membership. -/
def listTest? (negated : Bool) : List Token → Option (Test × List Token)
  | .sign '(' :: rest => (positions? rest).map fun (ks, rest) => (.inList negated ks, rest)
  | _ => none

/-- The test behind a column. -/
def test? : List Token → Option (Test × List Token)
  | .comparison op :: .placeholder (some k) :: rest => some (.compare op (.bound k), rest)
  | .comparison op :: .word s :: rest => some (.compare op (.word s), rest)
  | .keyword .like :: rest => likeTest? false rest
  | .keyword .not :: .keyword .like :: rest => likeTest? true rest
  | .keyword .among :: rest => listTest? false rest
  | .keyword .not :: .keyword .among :: rest => listTest? true rest
  | .keyword .is :: .keyword .null :: rest => some (.isNull false, rest)
  | .keyword .is :: .keyword .not :: .keyword .null :: rest => some (.isNull true, rest)
  | _ => none

/-- A test of a column, or a comparison of two numbers. -/
def primary? : List Token → Option (Formula × List Token)
  | .word m :: .comparison .eq :: .word n :: rest => some (.constant (m == n), rest)
  | .name qualifier :: .sign '.' :: .name column :: rest =>
    (test? rest).map fun (test, rest) => (.atom ⟨qualifier, column, test⟩, rest)
  | _ => none

theorem length_positions? {ts rest : List Token} {ks : List Nat} (h : positions? ts = some (ks, rest)) :
    rest.length < ts.length := by
  fun_induction positions? ts generalizing ks rest with
  | case1 =>
    cases h
    simp only [List.length_cons]
    omega
  | case2 k ts ih =>
    obtain ⟨⟨ks', rest'⟩, hks, heq⟩ := Option.map_eq_some_iff.1 h
    cases heq
    have hlt := ih hks
    simp only [List.length_cons]
    omega
  | case3 => cases h

theorem length_likeTest? {negated : Bool} {ts rest : List Token} {test : Test}
    (h : likeTest? negated ts = some (test, rest)) : rest.length < ts.length := by
  unfold likeTest? at h
  split at h <;> cases h <;> simp only [List.length_cons] <;> omega

theorem length_listTest? {negated : Bool} {ts rest : List Token} {test : Test}
    (h : listTest? negated ts = some (test, rest)) : rest.length < ts.length := by
  unfold listTest? at h
  split at h
  · obtain ⟨⟨ks, rest'⟩, hks, heq⟩ := Option.map_eq_some_iff.1 h
    cases heq
    have hlt := length_positions? hks
    simp only [List.length_cons]
    omega
  · cases h

theorem length_test? {ts rest : List Token} {test : Test} (h : test? ts = some (test, rest)) :
    rest.length < ts.length := by
  unfold test? at h
  split at h
  case h_3 => exact Nat.lt_succ_of_lt (length_likeTest? h)
  case h_4 => exact Nat.lt_succ_of_lt (Nat.lt_succ_of_lt (length_likeTest? h))
  case h_5 => exact Nat.lt_succ_of_lt (length_listTest? h)
  case h_6 => exact Nat.lt_succ_of_lt (Nat.lt_succ_of_lt (length_listTest? h))
  all_goals cases h
  all_goals simp only [List.length_cons]
  all_goals omega

theorem length_primary? {ts rest : List Token} {f : Formula} (h : primary? ts = some (f, rest)) :
    rest.length < ts.length := by
  unfold primary? at h
  split at h
  · cases h
    simp only [List.length_cons]
    omega
  · obtain ⟨⟨test, rest'⟩, htest, heq⟩ := Option.map_eq_some_iff.1 h
    cases heq
    have hlt := length_test? htest
    simp only [List.length_cons]
    omega
  · cases h

/-! ## Reading conditions -/

/-- What has been read since a parenthesis was opened: the conditions that an OR has ended, and those since that AND has
joined. -/
structure Level where
  disjunction : Option Formula
  conjunction : Option Formula

namespace Level

/-- Nothing has been read. -/
def start : Level := ⟨none, none⟩

/-- One more operand for AND to join. -/
def operand (l : Level) (f : Formula) : Level :=
  match l.conjunction with
  | none => { l with conjunction := some f }
  | some g => { l with conjunction := some (.and g f) }

/-- All that has been read. -/
def formula? (l : Level) : Option Formula :=
  match l.disjunction, l.conjunction with
  | some f, some g => some (.or f g)
  | none, g => g
  | f, none => f

/-- An OR ends what AND has joined. -/
def alternative (l : Level) : Level := ⟨l.formula?, none⟩

end Level

mutual

/-- Reads on where an operand has to stand: a parenthesis or a primary condition. -/
def readOperand (outer : List Level) (level : Level) (ts : List Token) : Option (Formula × List Token) :=
  match ts with
  | .sign '(' :: rest => readOperand (level :: outer) .start rest
  | ts =>
    match h : primary? ts with
    | some (f, rest) =>
      have : rest.length < ts.length := length_primary? h
      readJoiner outer (level.operand f) rest
    | none => none
termination_by ts.length

/-- Reads on behind an operand: to the next operand, or out of a parenthesis, or to the end of the condition. -/
def readJoiner (outer : List Level) (level : Level) (ts : List Token) : Option (Formula × List Token) :=
  match ts with
  | .keyword .and :: rest => readOperand outer level rest
  | .keyword .or :: rest => readOperand outer level.alternative rest
  | .sign ')' :: rest =>
    match outer, level.formula? with
    | parent :: outer, some f => readJoiner outer (parent.operand f) rest
    | _, _ => none
  | ts =>
    match outer with
    | [] => level.formula?.map fun f => (f, ts)
    | _ :: _ => none
termination_by ts.length

end

/-- A placeholder without a position takes the one after the greatest before it. -/
def number (bound : Nat) : List Token → List Token
  | [] => []
  | .placeholder none :: rest => .placeholder (some (bound + 1)) :: number (bound + 1) rest
  | .placeholder (some k) :: rest => .placeholder (some k) :: number (max bound k) rest
  | t :: rest => t :: number bound rest

/-- Whether a condition ends here: at the end of the query, or where it is grouped or ordered. -/
def endsCondition : List Token → Bool
  | [] | .keyword .group :: _ | .keyword .order :: _ => true
  | _ => false

/-- The condition of a query. -/
def condition? (text : String) : Option Formula :=
  if Token.unclosed ∈ tokens text.toList then none
  else
    match (number 0 (tokens text.toList)).dropWhile fun t => t != .keyword .filter with
    | [] => some (.constant true)
    | _ :: ts =>
      match readOperand [] .start ts with
      | some (f, rest) => if endsCondition rest then some f else none
      | none => none

end Criteria.Sql
