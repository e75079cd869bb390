import Criteria.Proofs.Searches.Values
import Criteria.Proofs.Sql.Truth

/-!
# Predicates and their contraries

* `Predicate.contrary?` — the predicate that asks for the opposite, for those that have one.
* `Predicate.Together`, `Predicate.Complementary` — what two predicates make of one operand, and terms of which one is
  true where the other is false.
* `valueTerm_together`, `listTerm_together`, `holdsTerm_complementary` — the terms of the two are complementary: by the
  comparisons and matches that they make, by the membership that one negates, and by De Morgan's laws for the tests of
  nulls and empty texts.
* `Predicate.term_contrary` — so are the terms for every operand that the two accept, and they accept the same.
-/

namespace Criteria

open Sql

/-! ## Comparisons and lists -/

/-- The comparison that holds where this one does not. -/
def Comparison.contrary : Comparison → Comparison
  | eq => notEq
  | notEq => eq
  | lt => gteq
  | lteq => gt
  | gt => lteq
  | gteq => lt

theorem Comparison.accepts_contrary (op : Comparison) (o : Ordering) : op.contrary.accepts o = !op.accepts o := by
  cases op <;> cases o <;> rfl

namespace Sql

variable {k : Collation} {value : Option BindValue}

theorem Collation.test_contrary (op : Comparison) (comparand : Option BindValue) :
    k.test op.contrary value comparand = (k.test op value comparand).opposite := by
  cases value with
  | none => rfl
  | some v =>
    cases comparand with
    | none => rfl
    | some w =>
      have haccepts : op.contrary.accepts = fun o => !op.accepts o := funext op.accepts_contrary
      simp [test, Truth.opposite, haccepts, Function.comp_def]

theorem Collation.testList_not (negated : Bool) (comparands : List (Option BindValue)) :
    k.testList (!negated) value comparands = (k.testList negated value comparands).opposite := by
  have hne : k.test .notEq value = Truth.opposite ∘ k.test .eq value := funext (k.test_contrary .eq)
  have heq : k.test .eq value = Truth.opposite ∘ k.test .notEq value := funext (k.test_contrary .notEq)
  cases negated with
  | true =>
    rw [Bool.not_true, testList, if_neg Bool.false_ne_true, testList, if_pos rfl, Truth.opposite_all, List.map_map,
      ← heq]
  | false =>
    rw [Bool.not_false, testList, if_pos rfl, testList, if_neg Bool.false_ne_true, Truth.opposite_any, List.map_map,
      ← hne]

theorem Collation.testLike_not (pattern : String) (negated escaped : Bool) :
    k.testLike pattern (!negated) escaped value = (k.testLike pattern negated escaped value).opposite := by
  cases value with
  | none => rfl
  | some v => cases negated <;> simp [testLike, likeTruth, Truth.opposite]

/-- Of the two truth values, a column that holds one of them or a null has one exactly where it has not the other. -/
theorem Collation.test_not (hvalue : ∀ v, value = some v → v.kind = .bool) (b : Bool) :
    k.test .eq value (some (.bool (!b))) = (k.test .eq value (some (.bool b))).opposite := by
  cases value with
  | none => rfl
  | some v =>
    cases v with
    | bool c => cases b <;> cases c <;> simp [test, k.compare_bool, Truth.opposite, Comparison.accepts]
    | text | int | float => cases hvalue _ rfl

end Sql

/-! ## Contraries -/

/-- The kind of operand that a predicate takes. -/
def Operand.arity : Operand → Arity
  | value _ => .single
  | list _ => .list
  | flag _ => .flag

namespace Predicate

/-- The predicate that asks for the opposite. -/
def contrary? : Predicate → Option Predicate
  | eq => some notEq
  | notEq => some eq
  | matching => some notMatching
  | notMatching => some matching
  | cont => some notCont
  | notCont => some cont
  | start => some notStart
  | notStart => some start
  | ending => some notEnding
  | notEnding => some ending
  | isIn => some notIn
  | notIn => some isIn
  | null => some notNull
  | notNull => some null
  | present => some blank
  | blank => some present
  | isTrue => some isFalse
  | isFalse => some isTrue
  | lt | lteq | gt | gteq => none

variable {p q : Predicate} {column : Column} {k : Collation} {row : Row}

theorem comparison?_contrary (h : p.contrary? = some q) : q.comparison? = p.comparison?.map Comparison.contrary := by
  cases p <;> cases h <;> rfl

theorem matching?_contrary (h : p.contrary? = some q) :
    q.matching? = p.matching?.map fun m => { m with negated := !m.negated } := by
  cases p <;> cases h <;> rfl

theorem isNotIn_contrary (h : p.contrary? = some q) (harity : p.arity = .list) : (q == notIn) = !(p == notIn) := by
  cases p <;> cases harity <;> cases h <;> rfl

theorem opposite_contrary (h : p.contrary? = some q) (harity : p.arity = .flag) : p.opposite = q ∧ q.opposite = p := by
  cases p <;> cases harity <;> cases h <;> exact ⟨rfl, rfl⟩

/-! ## Terms -/

/-- What two predicates make of one operand: both reject it with the same complaint, or neither does and the results are
related. -/
inductive Together (p q : Predicate) {α : Type} (r : α → α → Prop) :
    Except SearchError α → Except SearchError α → Prop
  | rejected (misfit : Misfit) :
    Together p q r (.error (.unsupportedValue p misfit)) (.error (.unsupportedValue q misfit))
  | accepted {x y : α} (h : r x y) : Together p q r (.ok x) (.ok y)

theorem Together.eq_or {α : Type} {r : α → α → Prop} {x y : Except SearchError α} (h : Together p q r x y) :
    (∃ misfit, x = .error (.unsupportedValue p misfit) ∧ y = .error (.unsupportedValue q misfit)) ∨
      ∃ a b, x = .ok a ∧ y = .ok b ∧ r a b := by
  cases h with
  | rejected misfit => exact .inl ⟨misfit, rfl, rfl⟩
  | accepted h => exact .inr ⟨_, _, rfl, rfl, h⟩

/-- A row in which the column has a value of its own or a null: where it stores truth values, no other value. -/
def Suits (column : Column) (row : Row) : Prop :=
  column.type = .boolean → ∀ v, row column.qualifier column.name = some v → v.kind = .bool

/-- One expression is true where the other is false, and both are unknown together, over every row that suits. -/
def Complementary (column : Column) (e e' : Expr) : Prop :=
  ∀ (k : Collation) (row : Row), Suits column row →
    (e'.truth k row = some true ↔ e.truth k row = some false) ∧
      (e'.truth k row = some false ↔ e.truth k row = some true) ∧ (e'.truth k row = none ↔ e.truth k row = none)

theorem complementary_of_opposite {e e' : Expr}
    (h : ∀ (k : Collation) (row : Row), Suits column row → e'.truth k row = Truth.opposite (e.truth k row)) :
    Complementary column e e' := by
  intro k row hrow
  rw [h k row hrow]
  refine ⟨Truth.opposite_eq_some, Truth.opposite_eq_some, ?_⟩
  rw [Truth.opposite, Option.map_eq_none_iff]

theorem Complementary.symm {e e' : Expr} (h : Complementary column e e') : Complementary column e' e := by
  intro k row hrow
  obtain ⟨htrue, hfalse, hnone⟩ := h k row hrow
  exact ⟨hfalse.symm, htrue.symm, hnone.symm⟩

theorem coerce_together (p q : Predicate) (raw : String) (type : ColumnType) :
    Together p q Eq (p.coerce raw type) (q.coerce raw type) := by
  unfold coerce
  cases type.coerce? raw with
  | none => exact .rejected _
  | some value => exact .accepted rfl

theorem coerceAll_together (p q : Predicate) (type : ColumnType) (raws : List String) :
    Together p q Eq (p.coerceAll type raws) (q.coerceAll type raws) := by
  unfold coerceAll
  induction raws with
  | nil => exact .accepted rfl
  | cons raw raws ih =>
    unfold collect
    obtain ⟨misfit, hp, hq⟩ | ⟨value, _, hp, hq, rfl⟩ := (coerce_together p q raw type).eq_or
    · rw [hp, hq]
      exact .rejected misfit
    · rw [hp, hq]
      obtain ⟨misfit, hp, hq⟩ | ⟨values, _, hp, hq, rfl⟩ := ih.eq_or
      · rw [hp, hq]
        exact .rejected misfit
      · rw [hp, hq]
        exact .accepted rfl

/-- The terms for one value: the predicates make contrary comparisons, or one match that one of them negates. -/
theorem valueTerm_together (h : p.contrary? = some q) (harity : p.arity = .single) (raw : String) :
    Together p q (Complementary column) (p.valueTerm column raw) (q.valueTerm column raw) := by
  unfold valueTerm
  rw [comparison?_contrary h, matching?_contrary h]
  cases hop : p.comparison? with
  | some op =>
    obtain ⟨misfit, hp, hq⟩ | ⟨value, _, hp, hq, rfl⟩ := (coerce_together p q raw column.type).eq_or
    · rw [hp, hq]
      exact .rejected misfit
    · rw [hp, hq]
      exact .accepted (complementary_of_opposite fun k row _ => k.test_contrary op _)
  | none =>
    obtain ⟨m, hm⟩ : ∃ m, p.matching? = some m := by
      have hmatching := comparison?_or_matching? harity
      rw [hop] at hmatching
      exact Option.isSome_iff_exists.1 (hmatching.resolve_left Bool.false_ne_true)
    rw [hm]
    exact .accepted (complementary_of_opposite fun k row _ => k.testLike_not _ _ _)

/-- The terms for a list: one of the predicates negates the membership, the empty one too. -/
theorem listTerm_together (h : p.contrary? = some q) (harity : p.arity = .list) (raws : List String) :
    Together p q (Complementary column) (p.term column (.list raws)) (q.term column (.list raws)) := by
  rw [term, term, isNotIn_contrary h harity]
  obtain ⟨misfit, hp, hq⟩ | ⟨values, _, hp, hq, rfl⟩ := (coerceAll_together p q column.type raws).eq_or
  · rw [hp, hq]
    exact .rejected misfit
  · rw [hp, hq]
    exact .accepted (complementary_of_opposite fun k row _ => k.testList_not _ _)

/-- The terms of flags that hold. Present and blank are contrary by De Morgan's laws: where the column is a null, the
test of nulls decides both, and the comparison with the empty text is unknown. -/
theorem holdsTerm_complementary (h : p.contrary? = some q) (harity : p.arity = .flag)
    (hallowed : p.allows column.type = true) : Complementary column (p.holdsTerm column) (q.holdsTerm column) := by
  apply complementary_of_opposite
  intro k row hrow
  have hempty : ∀ op, k.test (Comparison.contrary op) (row column.qualifier column.name) (some (.text "")) = _ :=
    fun op => k.test_contrary op _
  cases p <;> cases harity <;> cases h
  case null | notNull => simp [holdsTerm, Expr.truth, Truth.opposite]
  case present =>
    simp only [holdsTerm, Expr.truth, Expr.allTruths, Truth.combine, Truth.opposite_all, List.map_cons, List.map_nil]
    rw [← hempty .notEq]
    simp [Truth.opposite, Comparison.contrary]
  case blank =>
    simp only [holdsTerm, Expr.truth, Expr.allTruths, Truth.combine, Truth.opposite_any, List.map_cons, List.map_nil]
    rw [← hempty .eq]
    simp [Truth.opposite, Comparison.contrary]
  case isTrue =>
    have hvalue := hrow (beq_iff_eq.1 hallowed)
    exact k.test_not hvalue true
  case isFalse =>
    have hvalue := hrow (beq_iff_eq.1 hallowed)
    exact k.test_not hvalue false

/-- A null and an empty text are blank, and any other text is not. -/
example : [none, some (.text ""), some (.text "Ernie")].map (fun value =>
    (blank.holdsTerm ⟨"people", "name", .string⟩).truth .plain fun _ _ => value) =
      [some true, some true, some false] := by decide +kernel

/-- A predicate and its contrary reject the same operands of the kind they take, and of the others they make terms that
are complementary; a flag that does not hold is the contrary's that does. -/
theorem term_contrary (h : p.contrary? = some q) (hallowed : p.allows column.type = true) :
    (∀ operand : Operand, operand.arity = p.arity →
      Together p q (Complementary column) (p.term column operand) (q.term column operand)) ∧
    (p.arity = .flag → p.term column (.flag false) = q.term column (.flag true)) := by
  constructor
  · intro operand harity
    cases operand with
    | value raw => exact valueTerm_together h harity.symm raw
    | list raws => exact listTerm_together h harity.symm raws
    | flag holds =>
      obtain ⟨hp, hq⟩ := opposite_contrary h harity.symm
      have hcomplementary := holdsTerm_complementary h harity.symm hallowed
      rw [term, term, flagTerm, flagTerm, hp, hq]
      cases holds with
      | true => exact .accepted hcomplementary
      | false => exact .accepted hcomplementary.symm
  · intro harity
    rw [term, term, flagTerm, flagTerm, if_neg Bool.false_ne_true, if_pos rfl, (opposite_contrary h harity).1]

/-- Whether an article is published. -/
def publishedColumn : Column := ⟨"articles", "published", .boolean⟩

/-- The name of a person. -/
def nameColumn : Column := ⟨"people", "name", .string⟩

/-- What two expressions say where a column has each of these values. -/
def truths (e e' : Expr) (values : List (Option BindValue)) : List (Truth × Truth) :=
  values.map fun value => (e.truth .plain fun _ _ => value, e'.truth .plain fun _ _ => value)

theorem Together.complementary {e e' : Expr}
    (h : Together p q (Complementary column) (.ok e) (.ok e')) : Complementary column e e' := by
  cases h with
  | accepted h => exact h

/-- Of a column of truth values, one predicate asks whether it is true and the other whether it is false. Two that
compare a text are both unknown of a null; and a value is never in an empty list and always not in it, a null too. -/
theorem term_contrary_rows :
    (isTrue.contrary? = some isFalse ∧ isTrue.allows publishedColumn.type = true ∧
      Together isTrue isFalse (Complementary publishedColumn) (isTrue.term publishedColumn (.flag true))
        (isFalse.term publishedColumn (.flag true)) ∧
      isTrue.term publishedColumn (.flag false) = isFalse.term publishedColumn (.flag true)) ∧
    (eq.contrary? = some notEq ∧ eq.allows nameColumn.type = true ∧
      ∃ e e', eq.term nameColumn (.value "Ernie") = .ok e ∧ notEq.term nameColumn (.value "Ernie") = .ok e' ∧
        Complementary nameColumn e e' ∧
        truths e e' [some (.text "Ernie"), some (.text "Bert"), none] =
          [(some true, some false), (some false, some true), (none, none)]) ∧
    (isIn.contrary? = some notIn ∧ isIn.allows nameColumn.type = true ∧
      ∃ e e', isIn.term nameColumn (.list []) = .ok e ∧ notIn.term nameColumn (.list []) = .ok e' ∧
        Complementary nameColumn e e' ∧
        truths e e' [some (.text "Ernie"), none] = [(some false, some true), (some false, some true)]) := by
  obtain ⟨hflags, hfalsy⟩ := @term_contrary isTrue isFalse publishedColumn rfl rfl
  obtain ⟨hvalues, -⟩ := @term_contrary eq notEq nameColumn rfl rfl
  obtain ⟨hlists, -⟩ := @term_contrary isIn notIn nameColumn rfl rfl
  refine ⟨⟨rfl, rfl, hflags (.flag true) rfl, hfalsy rfl⟩, ⟨rfl, rfl, _, _, rfl, rfl, ?_, ?_⟩,
    ⟨rfl, rfl, _, _, rfl, rfl, ?_, ?_⟩⟩
  · exact (hvalues (.value "Ernie") rfl).complementary
  · decide +kernel
  · exact (hlists (.list []) rfl).complementary
  · decide +kernel

end Predicate

end Criteria
