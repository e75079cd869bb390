import Criteria.Compile
import Criteria.Proofs.Conditions.Making
import Criteria.Proofs.Number.Literals

/-!
# Conditions on integer columns

* `Json.Gives`, `Json.GiveAll` — the integers that a JSON value and the items of one give.
* `Value.texts_ofJson` — the texts of a value are those of its items that are not blank, and `Json.GiveAll.texts`: they
  denote the integers that the items give.
* `Condition.exists_make_iff` — integer attributes are never in the way of such texts, and
  `Condition.columnTerms_integer`: for an integer column they are compared as just these integers.
* `Condition.make_error_of_not_denotes` — any other text, and so any other number, fails wherever an attribute is an
  integer.
* `Condition.binds_integers` — all of this, and which texts, numbers and literals give an integer.
-/

namespace Criteria

open Number (IsInt64 Denotes Writes padded writes_padded denotes_toString Numeral)

/-! ## What gives integers -/

namespace Json

variable {items : List Json} {ns : List Int}

/-- A value gives an integer of 64 bits: it is this number, or a text that denotes it. -/
inductive Gives : Json → Int → Prop
  | number {n : Int} (h : IsInt64 n) : Gives (.number (.integer n)) n
  | string {s : String} {n : Int} (h : Denotes s n) : Gives (.string s) n

/-- Items give integers in order, null and blank texts none. -/
inductive GiveAll : List Json → List Int → Prop
  | nil : GiveAll [] []
  | null {items : List Json} {ns : List Int} (h : GiveAll items ns) : GiveAll (.null :: items) ns
  | blank {s : String} {items : List Json} {ns : List Int} (hs : Text.isBlank s = true) (h : GiveAll items ns) :
    GiveAll (.string s :: items) ns
  | cons {item : Json} {n : Int} {items : List Json} {ns : List Int} (hn : item.Gives n) (h : GiveAll items ns) :
    GiveAll (item :: items) (n :: ns)

/-- The items of a value: those of an array or by position, and a scalar itself. -/
def items? : Json → Option (List Json)
  | array items => some items
  | object fields => indexed? fields
  | value => some [value]

theorem Gives.denotes {value : Json} {n : Int} (h : value.Gives n) : ∃ s, itemText value = .ok s ∧ Denotes s n := by
  cases h with
  | number h => exact ⟨_, rfl, denotes_toString h⟩
  | string h => exact ⟨_, rfl, h⟩

/-- The texts of items that are not blank denote the integers that the items give. -/
theorem GiveAll.texts (h : GiveAll items ns) : ∃ texts, collect itemText items = .ok texts ∧
    List.Forall₂ Denotes (Value.list texts).kept ns := by
  induction h with
  | nil => exact ⟨[], rfl, .nil⟩
  | null h ih =>
    obtain ⟨texts, htexts, hdenote⟩ := ih
    refine ⟨"" :: texts, ?_, hdenote⟩
    rw [collect, htexts]
    rfl
  | @blank s _ _ hs h ih =>
    obtain ⟨texts, htexts, hdenote⟩ := ih
    refine ⟨s :: texts, ?_, ?_⟩
    · rw [collect, htexts]
      rfl
    · rwa [Value.kept, Value.texts, List.filter_cons_of_neg (by simp [hs])]
  | cons hn h ih =>
    obtain ⟨texts, htexts, hdenote⟩ := ih
    obtain ⟨s, hs, hsn⟩ := hn.denotes
    refine ⟨s :: texts, ?_, ?_⟩
    · simp only [collect, hs, htexts]
    · rw [Value.kept, Value.texts, List.filter_cons_of_pos (by simp [hsn.isBlank])]
      exact .cons hsn hdenote

end Json

/-! ## Texts of values -/

namespace Value

variable {v : Json} {items : List Json} {kept : List String}

theorem texts_unlessBlank {w : Value} : (∃ value, w.withoutBlanks.unlessBlank = some value ∧ value.texts = kept) ↔
    kept ≠ [] ∧ w.kept = kept := by
  unfold unlessBlank
  rw [isBlank_withoutBlanks]
  cases hblank : w.isBlank with
  | true =>
    rw [kept_eq_nil.2 hblank]
    simp [eq_comm]
  | false =>
    have hne : w.kept ≠ [] := fun hnil => Bool.false_ne_true (hblank.symm.trans (kept_eq_nil.1 hnil))
    simp only [Bool.false_eq_true, if_false, Option.some.injEq, exists_eq_left', texts_withoutBlanks hblank]
    exact ⟨fun h => ⟨h ▸ hne, h⟩, And.right⟩

theorem texts_ofItems : (∃ value, ofItems items = .ok (some value) ∧ value.texts = kept) ↔
    kept ≠ [] ∧ ∃ texts, collect itemText items = .ok texts ∧ (list texts).kept = kept := by
  unfold ofItems
  cases collect itemText items with
  | error e => simp
  | ok texts => simpa using texts_unlessBlank

/-- The texts of a value are those of its items that are not blank. -/
theorem texts_ofJson (h : v.items? = some items) : (∃ value, ofJson v = .ok (some value) ∧ value.texts = kept) ↔
    kept ≠ [] ∧ ∃ texts, collect itemText items = .ok texts ∧ (list texts).kept = kept := by
  have hscalar (s : String) (hv : ofJson v = .ok (scalar s).unlessBlank) (hs : collect itemText items = .ok [s]) :
      (∃ value, ofJson v = .ok (some value) ∧ value.texts = kept) ↔
        kept ≠ [] ∧ ∃ texts, collect itemText items = .ok texts ∧ (list texts).kept = kept := by
    have htexts : (∃ value, (scalar s).unlessBlank = some value ∧ value.texts = kept) ↔
        kept ≠ [] ∧ (list [s]).kept = kept := texts_unlessBlank (w := scalar s)
    rw [hv, hs]
    simpa using htexts
  cases v with
  | array items' =>
    cases h
    exact texts_ofItems
  | object fields =>
    have hv : ofJson (.object fields) = ofItems items := by simp only [ofJson, show indexed? fields = some items from h]
    rw [hv]
    exact texts_ofItems
  | null => cases h; exact hscalar _ rfl rfl
  | bool b => cases h; exact hscalar _ rfl rfl
  | number x => cases h; exact hscalar _ rfl rfl
  | string s => cases h; exact hscalar _ rfl rfl

end Value

/-! ## Conditions -/

theorem collect_of_forall₂ {α β γ ε : Type} {R : α → β → Prop} {f : α → Except ε γ} {g : β → γ} {xs : List α}
    {ys : List β} (h : List.Forall₂ R xs ys) (hf : ∀ x y, R x y → f x = .ok (g y)) :
    collect f xs = .ok (ys.map g) := by
  induction h with
  | nil => rfl
  | cons hxy h ih => simp only [collect, hf _ _ hxy, ih, List.map_cons]

theorem ne_nil_of_forall₂ {α β : Type} {R : α → β → Prop} {xs : List α} {ys : List β} (h : List.Forall₂ R xs ys)
    (hne : ys ≠ []) : xs ≠ [] := by
  rintro rfl
  exact hne (List.forall₂_nil_left_iff.1 h)

namespace Predicate

variable {p : Predicate}

/-- A predicate that compares values of an integer column. -/
def ComparesIntegers (p : Predicate) : Prop := p.arity ≠ .flag ∧ p.allows .integer = true

/-- The tests of a column on some integers: one comparison each, or one list. -/
def comparisons (p : Predicate) (column : Column) (ns : List Int) : List Expr :=
  match p.comparison? with
  | some op => ns.map fun n => .compare column op (.int n)
  | none => [.inList column (ns.map .int) (p == notIn)]

/-- The tests on some integers bind these. -/
theorem allBindings_comparisons (p : Predicate) (column : Column) (ns : List Int) :
    Expr.allBindings (p.comparisons column ns) = ns.map .int := by
  rw [Expr.allBindings_eq_flatMap, comparisons]
  split
  · rw [List.flatMap_map]
    exact List.map_eq_flatMap.symm
  · exact List.append_nil _

theorem ComparesIntegers.arity (h : p.ComparesIntegers) :
    (p.arity = .single ∧ ∃ op, p.comparison? = some op) ∨ (p.arity = .list ∧ p.comparison? = none) := by
  obtain ⟨hflag, hallows⟩ := h
  cases p <;> simp_all [Predicate.arity, allows, guard, Guard.allows, comparison?, ColumnType.isTextual]

end Predicate

namespace Condition

variable {key : String} {paths : List AttributePath} {p : Predicate} {value : Value} {m : Combinator} {several : Bool}
  {cond : Condition} {ns : List Int} {column : Column}

/-- Texts that denote integers are compared as these in an integer column. -/
theorem columnTerms_integer (hp : cond.predicate.ComparesIntegers) (hcolumn : column.type = .integer)
    (h : List.Forall₂ Denotes cond.value.texts ns) :
    cond.columnTerms column = .ok (cond.predicate.comparisons column ns) := by
  have hcoerce (raw : String) (n : Int) (hraw : Denotes raw n) :
      cond.predicate.coerce raw column.type = .ok (.int n) := by
    rw [hcolumn]
    exact Predicate.coerce_integer hraw
  unfold columnTerms Predicate.comparisons
  rcases hp.arity with ⟨harity, op, hop⟩ | ⟨harity, hop⟩
  · rw [harity, hop]
    refine collect_of_forall₂ h fun raw n hraw => ?_
    simp only [Predicate.term, Predicate.valueTerm, hop, hcoerce raw n hraw]
  · have hlist : cond.predicate.coerceAll column.type cond.value.texts = .ok (ns.map .int) :=
      collect_of_forall₂ h hcoerce
    rw [harity, hop]
    simp only [collect, Predicate.term, hlist]

/-- Integer attributes are never in the way of texts that denote integers: a condition is made of these just if the
predicate takes as many of them, and all attributes of other types take their texts. -/
theorem exists_make_iff (hs : several = true → p.arity = .single) (hp : p.ComparesIntegers)
    (h : List.Forall₂ Denotes value.kept ns) (hne : ns ≠ []) :
    (∃ cond, make key paths p value m several = .ok (some cond)) ↔
      ((p.arity = .list ∨ several = true) ∨ ns.length ≤ 1) ∧ ∀ a ∈ paths, a.type ≠ .integer →
        p.allows a.type = true ∧ ∀ s ∈ value.kept, a.type.coerce? s ≠ none := by
  rw [← h.length_eq]
  have hkept : value.kept ≠ [] := ne_nil_of_forall₂ h hne
  constructor
  · rintro ⟨cond, hcond⟩
    obtain ⟨-, hsuited, v, hshape, -⟩ := (make_eq_some_iff hs).1 hcond
    refine ⟨(Value.exists_shapes_iff hkept).1 ⟨v, hshape⟩, fun a ha htype => ⟨?_, fun s hmem hnone => ?_⟩⟩
    · rw [← Bool.not_eq_false]
      exact fun hallows => hsuited (.columnType ha hallows)
    · exact hsuited (.notOfType hp.1 ha hmem hnone)
  · rintro ⟨hfits, hothers⟩
    obtain ⟨v, hshape⟩ := (Value.exists_shapes_iff hkept).2 hfits
    refine ⟨_, (make_eq_some_iff hs).2 ⟨hkept, fun hunsuited => ?_, v, hshape, rfl⟩⟩
    cases hunsuited with
    | tooMany hnot hlength => exact Nat.not_le.2 hlength (hfits.resolve_left hnot)
    | notFlag harity => exact hp.1 harity
    | @columnType a ha hallows =>
      by_cases htype : a.type = .integer
      · rw [htype, hp.2] at hallows
        cases hallows
      · exact Bool.false_ne_true (hallows.symm.trans (hothers a ha htype).1)
    | @notOfType a s harity ha hmem hnone =>
      by_cases htype : a.type = .integer
      · obtain ⟨hdenote, -⟩ := (List.forall₂_and_left (p := fun s => ∃ n, Denotes s n) _ _).1
          (h.imp fun s n hn => ⟨⟨n, hn⟩, hn⟩)
        obtain ⟨n, hn⟩ := hdenote s hmem
        rw [htype, ColumnType.coerce?_integer.2 ⟨n, hn, rfl⟩] at hnone
        cases hnone
      · exact (hothers a ha htype).2 s hmem hnone

/-- A text that denotes no integer fails wherever an attribute is an integer, unless the predicate takes a flag. -/
theorem make_error_of_not_denotes (hs : several = true → p.arity = .single) (hp : p.arity ≠ .flag) {s : String}
    (hmem : s ∈ value.kept) (h : ∀ n, ¬ Denotes s n) {a : AttributePath} (ha : a ∈ paths) (htype : a.type = .integer) :
    ∃ misfit, make key paths p value m several = .error (.unsupportedValue p misfit) := by
  have hcoerce : a.type.coerce? s = none := htype ▸ ColumnType.coerce?_integer_eq_none h
  obtain ⟨e, he⟩ : ∃ e, make key paths p value m several = .error e :=
    (make_eq_error hs).2 ⟨List.ne_nil_of_mem hmem, .notOfType hp ha hmem hcoerce⟩
  obtain ⟨misfit, rfl⟩ := misfit_of_make he
  exact ⟨misfit, he⟩

/-! ## All values -/

/-- A number stands among the texts of a value as it is written. -/
theorem text_mem_kept {v : Json} {items : List Json} (hitems : v.items? = some items) {x : JsonNumber}
    (hx : .number x ∈ items) (h : Value.ofJson v = .ok (some value)) : x.text ∈ value.kept := by
  obtain ⟨-, texts, htexts, hkept⟩ := (Value.texts_ofJson hitems).1 ⟨value, h, rfl⟩
  obtain ⟨s, hs, hread⟩ := exists_mem_collect htexts hx
  obtain rfl : x.text = s := Except.ok.inj hread
  have hfilled : (!Text.isBlank x.text) = true := by rw [x.isBlank_text, Bool.not_false]
  rw [Value.kept, ← hkept]
  exact List.mem_filter.2 ⟨List.mem_filter.2 ⟨hs, hfilled⟩, hfilled⟩

/-- A text is a value of an integer column just if it denotes an integer of 64 bits, and then it is this one. Values
that give integers are read, in every condition that compares, as just these in all its integer columns; every number
that is no integer of 64 bits makes the condition fail; and a literal is such an integer just if it writes one other
than as minus zero. -/
theorem binds_integers :
    (∀ (p : Predicate) (raw : String),
      (∀ v, p.coerce raw .integer = .ok v ↔ ∃ n, Denotes raw n ∧ v = .int n) ∧
        ((∀ n, ¬ Denotes raw n) → p.coerce raw .integer = .error (.unsupportedValue p (.notOfType raw .integer)))) ∧
    (∀ n, IsInt64 n → Json.Gives (.number (.integer n)) n ∧ Json.Gives (.string (toString n)) n ∧
      ∀ before after zeros, (∀ c ∈ before, Text.isSpace c = true) → (∀ c ∈ after, Text.isSpace c = true) →
        Json.Gives (.string (String.ofList (before ++ padded zeros n ++ after))) n) ∧
    (∀ v items ns, v.items? = some items → Json.GiveAll items ns → ns ≠ [] →
      ∃ value, Value.ofJson v = .ok (some value) ∧
        ∀ key paths p m several, (several = true → p.arity = .single) → p.ComparesIntegers →
          ((∃ cond, make key paths p value m several = .ok (some cond)) ↔
            ((p.arity = .list ∨ several = true) ∨ ns.length ≤ 1) ∧ ∀ a ∈ paths, a.type ≠ .integer →
              p.allows a.type = true ∧ ∀ s ∈ value.kept, a.type.coerce? s ≠ none) ∧
          ∀ cond column, make key paths p value m several = .ok (some cond) → column.type = .integer →
            cond.columnTerms column = .ok (p.comparisons column ns) ∧
              Expr.allBindings (p.comparisons column ns) = ns.map .int) ∧
    (∀ x : JsonNumber, (∀ n, ¬ (x = .integer n ∧ IsInt64 n)) →
      Value.ofJson (.number x) = .ok (some (.scalar x.text)) ∧
        ∀ v items value, v.items? = some items → .number x ∈ items → Value.ofJson v = .ok (some value) →
          ∀ key paths p m several a, (several = true → p.arity = .single) → p.arity ≠ .flag → a ∈ paths →
            a.type = .integer → ∃ misfit, make key paths p value m several = .error (.unsupportedValue p misfit)) ∧
    ∀ word lit x n, Token.ofWord? word = some (.number lit) → Document.number? lit = some x →
      (x = .integer n ∧ IsInt64 n ↔ Writes word n ∧ IsInt64 n ∧ word ≠ ['-', '0']) := by
  refine ⟨fun p raw => ⟨fun v => ?_, fun h => ?_⟩, fun n hn => ?_, fun v items ns hitems hgive hne => ?_,
    fun x hx => ⟨?_, ?_⟩, fun word lit x n => Token.number?_eq_int64⟩
  · exact Predicate.coerce_eq_ok_iff.trans ColumnType.coerce?_integer
  · exact Predicate.coerce_integer_of_not_denotes h
  · refine ⟨.number hn, .string (denotes_toString hn), fun before after zeros hbefore hafter => .string ?_⟩
    exact ⟨hn, before, _, after, String.toList_ofList, writes_padded zeros n, hbefore, hafter⟩
  · obtain ⟨texts, htexts, hdenote⟩ := hgive.texts
    obtain ⟨value, hvalue, hsame⟩ :=
      (Value.texts_ofJson hitems).2 ⟨ne_nil_of_forall₂ hdenote hne, texts, htexts, rfl⟩
    rw [← Value.kept_of_texts hsame] at hdenote
    refine ⟨value, hvalue, fun key paths p m several hs hp => ⟨exists_make_iff hs hp hdenote hne, ?_⟩⟩
    intro cond column hmade hcolumn
    obtain ⟨-, -, w, hshape, rfl⟩ := (make_eq_some_iff hs).1 hmade
    rw [← hshape.texts_eq] at hdenote
    exact ⟨columnTerms_integer hp hcolumn hdenote, p.allBindings_comparisons column ns⟩
  · have hblank : ¬ (Value.scalar x.text).isBlank = true := by simp [Value.isBlank, Value.texts, x.isBlank_text]
    exact congrArg Except.ok (if_neg hblank)
  · intro v items value hitems hmem hvalue key paths p m several a hs hp ha htype
    exact make_error_of_not_denotes hs hp (text_mem_kept hitems hmem hvalue)
      (fun n hn => hx n (JsonNumber.denotes_text.1 hn)) ha htype

/-- The attribute of a salary. -/
def salary : AttributePath := ⟨"salary", "Person", [], "Person", "salary", .integer⟩

/-- The number after the greatest integer of 64 bits. -/
def tooLarge : JsonNumber := .integer 9223372036854775808

/-- The least integer of 64 bits is bound, with zeros and spaces around; the number after the greatest fails, also in a
list; and the literal of minus zero is no integer. -/
theorem binds_integers_bounds :
    Predicate.eq.coerce " -009223372036854775808\t" .integer = .ok (.int (-9223372036854775808)) ∧
      (∃ value, Value.ofJson (.array [.number (.integer 7), .number tooLarge]) = .ok (some value) ∧
        ∃ misfit, make "salary_in" [salary] .isIn value .and false = .error (.unsupportedValue .isIn misfit)) ∧
      ∃ lit x, Token.ofWord? ['-', '0'] = some (.number lit) ∧ Document.number? lit = some x ∧
        ∀ n, ¬ (x = .integer n ∧ IsInt64 n) := by
  obtain ⟨hcoerce, -, -, hnumbers, hliterals⟩ := binds_integers
  refine ⟨((hcoerce .eq _).1 _).2 ⟨-9223372036854775808, ?_, rfl⟩, ⟨_, rfl, ?_⟩, ?_⟩
  · exact ⟨by decide, [' '], padded 2 (-9223372036854775808), ['\t'], by decide, writes_padded 2 _,
      List.all_eq_true.1 rfl, List.all_eq_true.1 rfl⟩
  · have hlarge (n : Int) : ¬ (tooLarge = .integer n ∧ IsInt64 n) := by
      rintro ⟨h, hn⟩
      cases h
      exact absurd hn (by decide)
    obtain ⟨-, hfails⟩ := hnumbers tooLarge hlarge
    exact hfails (.array [.number (.integer 7), .number tooLarge]) _ _ rfl (by simp) rfl _ [salary] .isIn _ _ salary
      nofun nofun List.mem_cons_self rfl
  · refine ⟨⟨some .minus, ['0'], none, none⟩, _, rfl, rfl, fun n hn => ?_⟩
    exact ((hliterals ['-', '0'] _ _ n rfl rfl).1 hn).2.2 rfl

end Condition

end Criteria
