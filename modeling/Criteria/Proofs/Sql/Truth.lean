import Criteria.Proofs.Sql.Patterns
import Criteria.Proofs.Sql.ReadBack

/-!
# Three-valued truth

* `Truth` — true, false or unknown; `Truth.opposite`, `all`, `any`, `combine` — the connectives of SQL, with De Morgan's
  laws (`opposite_all`, `opposite_any`).
* `Collation`, `Row` — how values compare, and the values of columns, some of which are null; `Collation.plain` compares
  values of one kind.
* `Expr.truth` — what an expression says about a row; `Formula.truth` — what a condition says that is read from a text.
* `exists_isOperand_truth` — the tokens of an expression are read as a condition that says the same, for every backend.
-/

namespace Criteria.Sql

/-! ## Connectives -/

/-- A truth value; none is unknown. -/
abbrev Truth := Option Bool

namespace Truth

/-- The opposite of a truth value; unknown is its own. -/
def opposite (t : Truth) : Truth := t.map (!·)

/-- Whether all of them hold: no if one does not, and else unknown if one is. -/
def all (ts : List Truth) : Truth := if some false ∈ ts then some false else if none ∈ ts then none else some true

/-- Whether any of them holds: yes if one does, and else unknown if one is. -/
def any (ts : List Truth) : Truth := if some true ∈ ts then some true else if none ∈ ts then none else some false

/-- Truth values joined into one; none at all count as true. -/
def combine (m : Combinator) (ts : List Truth) : Truth :=
  match ts, m with
  | [], _ => some true
  | ts, .and => all ts
  | ts, .or => any ts

variable {t u : Truth}

theorem opposite_eq_some {b : Bool} : t.opposite = some b ↔ t = some !b := by
  cases t <;> simp [opposite, Bool.not_eq_eq_eq_not]

theorem some_mem_map_opposite {ts : List Truth} {b : Bool} : some b ∈ ts.map opposite ↔ some (!b) ∈ ts := by
  simp [opposite_eq_some]

theorem none_mem_map_opposite {ts : List Truth} : none ∈ ts.map opposite ↔ none ∈ ts := by
  simp [opposite]

theorem opposite_all (ts : List Truth) : (all ts).opposite = any (ts.map opposite) := by
  simp only [all, any, some_mem_map_opposite, none_mem_map_opposite, Bool.not_true]
  split
  · rfl
  · split <;> rfl

theorem opposite_any (ts : List Truth) : (any ts).opposite = all (ts.map opposite) := by
  simp only [all, any, some_mem_map_opposite, none_mem_map_opposite, Bool.not_false]
  split
  · rfl
  · split <;> rfl

/-- A truth value is known by what becomes of it when unknown is taken for true, and when it is taken for false. -/
theorem ext_getD (h : ∀ b, t.getD b = u.getD b) : t = u := by
  have htrue := h true
  have hfalse := h false
  cases t <;> cases u <;> simp_all

theorem getD_all (ts : List Truth) (b : Bool) : (all ts).getD b = ts.all (·.getD b) := by
  rw [Bool.eq_iff_iff, List.all_eq_true, all]
  split
  · rename_i hfalse
    simp only [Option.getD_some, Bool.false_eq_true, false_iff, not_forall]
    exact ⟨some false, hfalse, by simp⟩
  · rename_i hfalse
    have hholds : ∀ t ∈ ts, t = none ∨ t = some true := by
      intro t ht
      match t, ht with
      | none, _ => exact .inl rfl
      | some true, _ => exact .inr rfl
      | some false, ht => exact absurd ht hfalse
    split
    · rename_i hnone
      constructor
      · intro hb t ht
        rcases hholds t ht with rfl | rfl
        · exact hb
        · rfl
      · intro h
        exact h none hnone
    · rename_i hnone
      simp only [Option.getD_some, true_iff]
      intro t ht
      rcases hholds t ht with rfl | rfl
      · exact absurd ht hnone
      · rfl

theorem getD_opposite (t : Truth) (b : Bool) : t.opposite.getD b = !t.getD !b := by
  cases t <;> simp [opposite]

theorem getD_any (ts : List Truth) (b : Bool) : (any ts).getD b = ts.any (·.getD b) := by
  have hall := getD_all (ts.map opposite) !b
  rw [← opposite_any, getD_opposite, Bool.not_not] at hall
  rw [← Bool.not_inj_iff, hall, List.all_map, List.not_any_eq_all_not]
  congr 1
  funext t
  simp [getD_opposite]

theorem getD_combine (m : Combinator) (ts : List Truth) (b : Bool) :
    (combine m ts).getD b = m.combine (ts.map (·.getD b)) := by
  cases ts with
  | nil => rfl
  | cons t ts =>
    cases m with
    | and =>
      rw [combine, getD_all, Combinator.combine_and, List.all_map]
      · rfl
      · exact nofun
    | or =>
      rw [combine, getD_any, List.map_cons, Combinator.combine_or_cons, List.any_cons, List.any_map]
      · rfl
      · exact nofun

end Truth

/-! ## Values of rows -/

/-- How the values of a database compare, and what its pattern matches see of a text. Some values may not compare, as a
number that is stored as a null; and some databases do not tell letters by their case. -/
structure Collation where
  compare : BindValue → BindValue → Option Ordering
  compare_bool : ∀ a b : Bool, compare (.bool a) (.bool b) = some (Ord.compare a b)
  fold : String → String

/-- The values of columns by qualifier and name; none is null. -/
abbrev Row := String → String → Option BindValue

end Sql

/-- Whether a comparison holds of values in this order. -/
def Comparison.accepts : Comparison → Ordering → Bool
  | eq, o => o == .eq
  | notEq, o => o != .eq
  | lt, o => o == .lt
  | lteq, o => o != .gt
  | gt, o => o == .gt
  | gteq, o => o != .lt

namespace Sql

namespace Collation

/-- The place of a float among the others: both zeros have the same. -/
def floatRank (x : Number.Binary64) : Int := if x.isNegative then -x.magnitudeBits else x.magnitudeBits

/-- Values of one kind compare, floats that are no numbers excepted; letters are told by their case. -/
def plain : Collation where
  compare
    | .text s, .text t => some (Ord.compare s t)
    | .int m, .int n => some (Ord.compare m n)
    | .float x, .float y => if x.isNaN || y.isNaN then none else some (Ord.compare (floatRank x) (floatRank y))
    | .bool a, .bool b => some (Ord.compare a b)
    | _, _ => none
  compare_bool _ _ := rfl
  fold := id

/-- What a comparison says about two values. -/
def test (k : Collation) (op : Comparison) (value comparand : Option BindValue) : Truth :=
  value.bind fun v => comparand.bind fun w => (k.compare v w).map op.accepts

/-- What a pattern match says about a value. -/
def testLike (k : Collation) (pattern : String) (negated escaped : Bool) (value : Option BindValue) : Truth :=
  likeTruth (k.fold pattern) negated escaped (value.map fun v => k.fold v.plainText)

/-- What a membership says: that the value equals one of the others, or if it is negated, that it differs from each. -/
def testList (k : Collation) (negated : Bool) (value : Option BindValue) (comparands : List (Option BindValue)) :
    Truth :=
  if negated then Truth.all (comparands.map (k.test .notEq value)) else Truth.any (comparands.map (k.test .eq value))

end Collation

end Sql

namespace Expr

open Sql

mutual

/-- What an expression says about a row. -/
def truth (k : Collation) (row : Row) : Expr → Truth
  | always => some true
  | compare column op value => k.test op (row column.qualifier column.name) (some value)
  | like column pattern negated escaped =>
    k.testLike pattern negated escaped (row column.qualifier column.name)
  | inList column values negated => k.testList negated (row column.qualifier column.name) (values.map some)
  | isNull column negated => some ((row column.qualifier column.name).isNone != negated)
  | isBool column value => k.test .eq (row column.qualifier column.name) (some (.bool value))
  | group m terms => Truth.combine m (allTruths k row terms)

/-- What expressions say, in order. -/
def allTruths (k : Collation) (row : Row) : List Expr → List Truth
  | [] => []
  | term :: rest => truth k row term :: allTruths k row rest

end

end Expr

namespace Sql

/-! ## Conditions that are read -/

/-- The value of a word. -/
def wordValue? (s : String) : Option BindValue :=
  if s ∈ ["1", "TRUE"] then some (.bool true) else if s ∈ ["0", "FALSE"] then some (.bool false) else none

/-- The bind value at a position, counted from one. -/
def boundAt? (bound : List BindValue) (position : Nat) : Option BindValue := bound[position - 1]?

/-- What a test of a column says about a row and bind values. -/
def Atom.truth (k : Collation) (row : Row) (bound : List BindValue) (a : Atom) : Truth :=
  let value := row a.qualifier a.column
  match a.test with
  | .compare op (.bound position) => k.test op value (boundAt? bound position)
  | .compare op (.word s) => k.test op value (wordValue? s)
  | .like negated position escape =>
    match boundAt? bound position with
    | some pattern => k.testLike pattern.plainText negated (escape == some "\\") value
    | none => none
  | .inList negated positions => k.testList negated value (positions.map (boundAt? bound))
  | .isNull negated => some (value.isNone != negated)

/-- What a condition says, given what its atoms say. -/
def Formula.truth (v : Atom → Truth) : Formula → Truth
  | constant value => some value
  | atom a => v a
  | and f g => Truth.all [f.truth v, g.truth v]
  | or f g => Truth.any [f.truth v, g.truth v]

theorem Formula.getD_truth (v : Atom → Truth) (f : Formula) (b : Bool) :
    (f.truth v).getD b = f.holds fun a => (v a).getD b := by
  induction f with
  | constant value => rfl
  | atom a => rfl
  | and f g ihf ihg => simp [truth, holds, Truth.getD_all, ihf, ihg]
  | or f g ihf ihg => simp [truth, holds, Truth.getD_any, ihf, ihg]

variable {k : Collation} {row : Row}

theorem wordValue?_truth (b : Backend) (value : Bool) : wordValue? (b.truth value) = some (.bool value) := by
  cases b <;> cases value <;> decide

/-- Values that stand behind others are at the positions behind theirs. -/
theorem boundAt?_range' (before values after : List BindValue) :
    (List.range' (before.length + 1) values.length).map (boundAt? (before ++ values ++ after)) = values.map some := by
  apply List.ext_getElem
  · simp
  · intro i hi hi'
    simp only [List.length_map, List.length_range'] at hi
    simp only [List.getElem_map, List.getElem_range', boundAt?, Nat.one_mul, Nat.add_right_comm _ 1,
      Nat.add_sub_cancel, List.append_assoc]
    rw [List.getElem?_append_right (Nat.le_add_right _ _), Nat.add_sub_cancel_left, List.getElem?_append_left hi,
      List.getElem?_eq_getElem hi]

mutual

/-- The truth value of an expression is that which its tests in a text have, whatever unknown is taken for. -/
theorem holdsAt_truth (b : Backend) (d : Bool) (e : Expr) (before after : List BindValue) :
    holdsAt (fun a => (a.truth k row (before ++ e.bindings ++ after)).getD d) b before.length e =
      (e.truth k row).getD d :=
  match e with
  | .always => by rw [holdsAt, Expr.truth, Option.getD_some]
  | .compare column op value => by
    rw [holdsAt, Expr.truth, Atom.truth]
    simp [boundAt?, Expr.bindings]
  | .like column pattern negated escaped => by
    rw [holdsAt, Expr.truth, Atom.truth]
    cases escaped <;> simp [boundAt?, Expr.bindings, BindValue.plainText]
  | .inList column [] negated => by
    rw [holdsAt, Expr.truth]
    cases negated <;> rfl
  | .inList column (value :: values) negated => by
    rw [holdsAt, Expr.truth, Atom.truth]
    dsimp only
    rw [Expr.bindings, boundAt?_range']
  | .isNull column negated => by rw [holdsAt, Expr.truth, Atom.truth]
  | .isBool column value => by
    rw [holdsAt, Expr.truth, Atom.truth]
    dsimp only
    rw [wordValue?_truth]
  | .group m terms => by
    rw [holdsAt, Expr.truth, Truth.getD_combine, Expr.bindings, allHoldAt_truth b d terms]

theorem allHoldAt_truth (b : Backend) (d : Bool) (terms : List Expr) (before after : List BindValue) :
    allHoldAt (fun a => (a.truth k row (before ++ Expr.allBindings terms ++ after)).getD d) b before.length terms =
      (Expr.allTruths k row terms).map (·.getD d) :=
  match terms with
  | [] => by rw [allHoldAt, Expr.allTruths, List.map_nil]
  | term :: rest => by
    rw [allHoldAt, Expr.allTruths, List.map_cons, Expr.allBindings]
    congr 1
    · rw [← holdsAt_truth b d term before (Expr.allBindings rest ++ after)]
      simp only [List.append_assoc]
    · rw [← allHoldAt_truth b d rest (before ++ term.bindings) after]
      simp only [List.append_assoc, List.length_append]

end

/-- The tokens of an expression are read as a condition that says what the expression says about every row, if its bind
values stand where it has its placeholders. -/
theorem exists_isOperand_truth (b : Backend) (e : Expr) (before : List BindValue) :
    ∃ f : Formula, IsOperand (exprTokens b placed before.length e) f ∧
      ∀ (k : Collation) (row : Row) (after : List BindValue),
        f.truth (Atom.truth k row (before ++ e.bindings ++ after)) = e.truth k row := by
  obtain ⟨f, hholds, hoperand⟩ := isOperand_expr b before.length e
  refine ⟨f, hoperand, fun k row after => ?_⟩
  apply Truth.ext_getD
  intro d
  rw [Formula.getD_truth, hholds, holdsAt_truth]

end Criteria.Sql
