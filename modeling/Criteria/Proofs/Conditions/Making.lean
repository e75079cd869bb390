import Criteria.Proofs.Params.Filled
import Criteria.Proofs.Searches.Sound

/-!
# What becomes of a value

* `Value.kept`, `Value.Shapes` — the texts of a value that are not blank, and the shape in which a condition holds them.
* `Value.fit_eq_ok` — a value fits a predicate just if its texts have such a shape.
* `Condition.Unsuited` — the texts that make no condition: too many of them, no flag, a column type that the predicate is
  not for, or a text that writes no value of a column's type.
* `Condition.misfit_of_make` — every failure is that the value does not suit the predicate.
* `Condition.make_cases` — blank values make nothing, unsuited ones fail, and all others make the condition of their
  texts, which its own value makes again.
-/

namespace Criteria

/-! ## Shapes of values -/

namespace Value

variable {v w : Value} {p : Predicate} {several : Bool} {ss : List String}

/-- The texts of a value that are not blank, in order. -/
def kept (v : Value) : List String := v.texts.filter fun s => !Text.isBlank s

/-- Texts as a condition holds them: in a list if the predicate takes one or several values are asked for, and otherwise
a single text. -/
inductive Shapes (p : Predicate) (several : Bool) : List String → Value → Prop
  | list {ss : List String} (h : p.arity = .list ∨ several = true) : Shapes p several ss (.list ss)
  | scalar {s : String} (h : ¬ (p.arity = .list ∨ several = true)) : Shapes p several [s] (.scalar s)

theorem Shapes.texts_eq (h : Shapes p several ss v) : v.texts = ss := by
  cases h <;> rfl

/-- A value fits a predicate in the one shape that its texts have for it. -/
theorem fit_eq_ok (hs : several = true → p.arity = .single) :
    v.fit p several = .ok w ↔ Shapes p several v.texts w := by
  cases v with
  | scalar s =>
    have hlist : (p.arity = .list ∨ p.arity = .single ∧ several = true) ↔ (p.arity = .list ∨ several = true) :=
      or_congr_right ⟨And.right, fun h => ⟨hs h, h⟩⟩
    simp only [fit, hlist, texts]
    constructor
    · intro h
      split at h <;> rename_i hshape <;> cases h
      · exact .list hshape
      · exact .scalar hshape
    · rintro (hshape | hshape)
      · rw [if_pos hshape]
      · rw [if_neg hshape]
  | list ss =>
    simp only [fit, texts]
    constructor
    · intro h
      split at h
      · rename_i hshape
        cases h
        exact .list hshape
      · rename_i hshape
        split at h <;> cases h
        exact .scalar hshape
    · rintro (hshape | hshape)
      · rw [if_pos hshape]
      · rw [if_neg hshape]

/-- Some texts have a shape, unless several of them stand where one is taken. -/
theorem exists_shapes_iff (hne : ss ≠ []) :
    (∃ w, Shapes p several ss w) ↔ (p.arity = .list ∨ several = true) ∨ ss.length ≤ 1 := by
  constructor
  · rintro ⟨w, hshape | hshape⟩
    · exact .inl hshape
    · exact .inr (Nat.le_refl 1)
  · intro h
    by_cases hshape : p.arity = .list ∨ several = true
    · exact ⟨.list ss, .list hshape⟩
    · cases ss with
      | nil => exact absurd rfl hne
      | cons s rest =>
        have hrest : rest = [] := by simpa using h.resolve_left hshape
        exact ⟨.scalar s, hrest ▸ .scalar hshape⟩

/-! ## Blank texts -/

theorem kept_eq_nil : v.kept = [] ↔ v.isBlank = true := by
  simp [kept, isBlank]

theorem notBlank_of_mem_kept {s : String} (h : s ∈ v.kept) : Text.isBlank s = false := by
  simpa using (List.mem_filter.1 h).2

theorem kept_of_texts (h : v.texts = w.kept) : v.kept = w.kept := by
  rw [kept, h]
  exact List.filter_eq_self.2 fun s hs => by simp [notBlank_of_mem_kept hs]

end Value

/-! ## Conditions -/

namespace Condition

variable {key : String} {paths : List AttributePath} {p : Predicate} {value : Value} {m : Combinator} {several : Bool}
  {cond : Condition} {ss : List String}

/-- Texts do not suit a predicate and some attributes. -/
inductive Unsuited (p : Predicate) (several : Bool) (paths : List AttributePath) (ss : List String) : Prop
  /-- Several texts, for a predicate that takes one and a key that does not ask for several. -/
  | tooMany (hshape : ¬ (p.arity = .list ∨ several = true)) (h : 1 < ss.length)
  /-- The first text is neither true nor false, for a predicate that takes a flag. -/
  | notFlag {s : String} (harity : p.arity = .flag) (hs : ss.head? = some s) (h : Flag.parse? s = none)
  /-- The predicate is not for the column type of an attribute. -/
  | columnType {a : AttributePath} (ha : a ∈ paths) (h : p.allows a.type = false)
  /-- A text is no value of the column type of an attribute. -/
  | notOfType {a : AttributePath} {s : String} (harity : p.arity ≠ .flag) (ha : a ∈ paths) (hs : s ∈ ss)
    (h : a.type.coerce? s = none)

theorem checkFlag_eq_ok_iff : checkFlag p value = .ok () ↔
    (p.arity = .flag → ∀ s, value.texts.head? = some s → Flag.parse? s ≠ none) := by
  unfold checkFlag
  split
  · rename_i harity
    cases value.texts with
    | nil => simp
    | cons s rest => simp [harity, Option.isSome_iff_ne_none]
  · rename_i harity
    simp [harity]

theorem checkAttribute_eq_ok_iff {a : AttributePath} : checkAttribute p value a = .ok () ↔
    p.allows a.type = true ∧ (p.arity ≠ .flag → ∀ s ∈ value.texts, a.type.coerce? s ≠ none) := by
  constructor
  · intro h
    obtain ⟨hallows, hcoerces⟩ := checkAttribute_eq_ok h
    exact ⟨hallows, fun harity s hs => Option.isSome_iff_ne_none.1 (hcoerces harity s hs)⟩
  · rintro ⟨hallows, hcoerces⟩
    rw [checkAttribute, Predicate.checkColumn_eq_ok.2 hallows]
    dsimp only
    split
    · rfl
    · rename_i harity
      obtain ⟨values, hvalues⟩ : ∃ values, p.coerceAll a.type value.texts = .ok values :=
        collect_isOk fun s hs => Predicate.coerce_isOk.2 (Option.isSome_iff_ne_none.2 (hcoerces harity s hs))
      rw [hvalues]

/-- Texts that have a shape suit a predicate just if the checks of it succeed. -/
theorem not_unsuited_iff (hshape : Value.Shapes p several ss value) :
    ¬ Unsuited p several paths ss ↔ checkFlag p value = .ok () ∧ ∀ a ∈ paths, checkAttribute p value a = .ok () := by
  simp only [checkFlag_eq_ok_iff, checkAttribute_eq_ok_iff, hshape.texts_eq]
  constructor
  · intro h
    refine ⟨fun harity s hs hnone => h (.notFlag harity hs hnone), fun a ha => ⟨?_, ?_⟩⟩
    · rw [← Bool.not_eq_false]
      exact fun hallows => h (.columnType ha hallows)
    · exact fun harity s hs hnone => h (.notOfType harity ha hs hnone)
  · rintro ⟨hflag, hattributes⟩ hunsuited
    cases hunsuited with
    | tooMany hnot hlength =>
      cases hshape with
      | list hlist => exact hnot hlist
      | scalar => exact absurd hlength (Nat.lt_irrefl 1)
    | notFlag harity hs hnone => exact hflag harity _ hs hnone
    | columnType ha hallows => exact Bool.false_ne_true (hallows.symm.trans (hattributes _ ha).1)
    | notOfType harity ha hs hnone => exact (hattributes _ ha).2 harity _ hs hnone

theorem make_eq_none : make key paths p value m several = .ok none ↔ value.kept = [] := by
  rw [Value.kept_eq_nil, ← Value.isBlank_withoutBlanks]
  unfold make
  dsimp only
  generalize value.withoutBlanks = value
  constructor
  · intro h
    split at h
    · assumption
    · repeat' split at h
      all_goals cases h
  · intro h
    rw [if_pos h]

/-- A condition is made of texts that are not blank and suit, and holds them in their shape. -/
theorem make_eq_some_iff (hs : several = true → p.arity = .single) :
    make key paths p value m several = .ok (some cond) ↔ value.kept ≠ [] ∧ ¬ Unsuited p several paths value.kept ∧
      ∃ v, Value.Shapes p several value.kept v ∧ cond = ⟨key, paths, p, v, m⟩ := by
  constructor
  · intro h
    obtain ⟨⟨hkey, hattributes, hp, hm⟩, hblank, hfit, hflag, hcheck⟩ := make_eq_some h
    rw [Value.isBlank_withoutBlanks] at hblank
    have hshape : Value.Shapes p several value.kept cond.value := by
      rwa [Value.fit_eq_ok hs, Value.texts_withoutBlanks hblank] at hfit
    refine ⟨?_, (not_unsuited_iff hshape).2 ⟨hflag, hcheck⟩, cond.value, hshape, ?_⟩
    · rw [Ne, Value.kept_eq_nil, hblank]
      exact Bool.false_ne_true
    · rw [← hkey, ← hattributes, ← hp, ← hm]
  · rintro ⟨hkept, hsuited, v, hshape, rfl⟩
    have hblank : value.isBlank = false := by simpa [Value.kept_eq_nil] using hkept
    obtain ⟨hflag, hcheck⟩ := (not_unsuited_iff hshape).1 hsuited
    have hfit : value.withoutBlanks.fit p several = .ok v := by
      rw [Value.fit_eq_ok hs, Value.texts_withoutBlanks hblank]
      exact hshape
    have hnot : ¬ value.withoutBlanks.isBlank = true := by simp [Value.isBlank_withoutBlanks, hblank]
    unfold make
    dsimp only
    rw [if_neg hnot, hfit]
    dsimp only
    rw [hflag]
    dsimp only
    rw [checkEach_eq_ok.2 hcheck]

/-- What fails is unsuited. -/
theorem make_eq_error (hs : several = true → p.arity = .single) :
    (∃ e, make key paths p value m several = .error e) ↔ value.kept ≠ [] ∧ Unsuited p several paths value.kept := by
  constructor
  · rintro ⟨e, he⟩
    have hkept : value.kept ≠ [] := by
      intro hnil
      rw [make_eq_none.2 hnil] at he
      cases he
    refine ⟨hkept, ?_⟩
    by_cases hshape : (p.arity = .list ∨ several = true) ∨ value.kept.length ≤ 1
    · obtain ⟨v, hshape⟩ := (Value.exists_shapes_iff hkept).2 hshape
      refine Classical.not_not.1 fun hsuited => ?_
      rw [(make_eq_some_iff hs).2 ⟨hkept, hsuited, v, hshape, rfl⟩] at he
      cases he
    · rw [not_or, Nat.not_le] at hshape
      exact .tooMany hshape.1 hshape.2
  · rintro ⟨hkept, hunsuited⟩
    cases hmade : make key paths p value m several with
    | error e => exact ⟨e, rfl⟩
    | ok found =>
      cases found with
      | none => exact absurd (make_eq_none.1 hmade) hkept
      | some cond => exact absurd hunsuited ((make_eq_some_iff hs).1 hmade).2.1

/-- A condition's own value makes the condition again. -/
theorem make_value (hs : several = true → p.arity = .single)
    (h : make key paths p value m several = .ok (some cond)) :
    make key paths p cond.value m several = .ok (some cond) := by
  obtain ⟨hkept, hsuited, v, hshape, rfl⟩ := (make_eq_some_iff hs).1 h
  have hsame : v.kept = value.kept := Value.kept_of_texts hshape.texts_eq
  refine (make_eq_some_iff hs).2 ⟨?_, ?_, v, ?_, rfl⟩
  all_goals
    dsimp only
    rwa [hsame]

/-! ## Failures -/

theorem misfit_of_fit {e : SearchError} (h : value.fit p several = .error e) :
    ∃ misfit, e = .unsupportedValue p misfit := by
  unfold Value.fit at h
  split at h
  · split at h <;> cases h
  · split at h
    · cases h
    · split at h <;> cases h
      exact ⟨_, rfl⟩

theorem misfit_of_checkFlag {e : SearchError} (h : checkFlag p value = .error e) :
    ∃ misfit, e = .unsupportedValue p misfit := by
  unfold checkFlag at h
  repeat' split at h
  all_goals cases h
  exact ⟨_, rfl⟩

theorem misfit_of_checkAttribute {a : AttributePath} {e : SearchError} (h : checkAttribute p value a = .error e) :
    ∃ misfit, e = .unsupportedValue p misfit := by
  unfold checkAttribute at h
  split at h
  · rename_i hcolumn
    cases h
    unfold Predicate.checkColumn at hcolumn
    split at hcolumn <;> cases hcolumn
    exact ⟨_, rfl⟩
  · split at h
    · cases h
    · split at h
      · rename_i hvalues
        cases h
        obtain ⟨raw, -, hraw⟩ := exists_of_collect_error hvalues
        unfold Predicate.coerce at hraw
        split at hraw <;> cases hraw
        exact ⟨_, rfl⟩
      · cases h

/-- Whatever fails in the making of a condition, the value does not suit the predicate. -/
theorem misfit_of_make {e : SearchError} (h : make key paths p value m several = .error e) :
    ∃ misfit, e = .unsupportedValue p misfit := by
  unfold make at h
  dsimp only at h
  split at h
  · cases h
  · split at h
    · rename_i hfit
      cases h
      exact misfit_of_fit hfit
    · split at h
      · rename_i hflag
        cases h
        exact misfit_of_checkFlag hflag
      · split at h
        · rename_i hcheck
          cases h
          obtain ⟨a, -, ha⟩ := exists_of_checkEach_error hcheck
          exact misfit_of_checkAttribute ha
        · cases h

/-! ## All cases -/

/-- What becomes of a value: nothing, if all its texts are blank; a failure, if those that are not blank do not suit the
predicate or some attribute; and otherwise the condition that holds just these in the shape that the predicate takes. Its
own value makes this condition again. -/
theorem make_cases (key : String) (paths : List AttributePath) (p : Predicate) (value : Value) (m : Combinator)
    (several : Bool) (hs : several = true → p.arity = .single) :
    (make key paths p value m several = .ok none ↔ value.kept = []) ∧
      ((∃ e, make key paths p value m several = .error e) ↔
        value.kept ≠ [] ∧ Unsuited p several paths value.kept) ∧
      (∀ cond, make key paths p value m several = .ok (some cond) ↔
        value.kept ≠ [] ∧ ¬ Unsuited p several paths value.kept ∧
          ∃ v, Value.Shapes p several value.kept v ∧ cond = ⟨key, paths, p, v, m⟩) ∧
      ∀ cond, make key paths p value m several = .ok (some cond) →
        make key paths p cond.value m several = .ok (some cond) :=
  ⟨make_eq_none, make_eq_error hs, fun _ => make_eq_some_iff hs, fun _ => make_value hs⟩

/-- The name and the salary of a person. -/
def nameAndSalary : List AttributePath :=
  [⟨"name", "Person", [], "Person", "name", .string⟩, ⟨"salary", "Person", [], "Person", "salary", .integer⟩]

/-- What becomes of a value for both of them. -/
def nameOrSalary (value : Value) : Except SearchError (Option Condition) :=
  make "name_or_salary_eq_any" nameAndSalary .eq value .or true

/-- The condition of two numbers for both of them. -/
def fiveOrSeven : Condition := ⟨"name_or_salary_eq_any", nameAndSalary, .eq, .list ["5", "7"], .or⟩

/-- Numbers suit both, also with blanks among them; a word suits the name only. -/
theorem make_cases_numbers :
    nameOrSalary (.list ["5", " ", "7"]) = .ok (some fiveOrSeven) ∧
      nameOrSalary fiveOrSeven.value = .ok (some fiveOrSeven) ∧ nameOrSalary (.list [" ", ""]) = .ok none ∧
      ∃ e, nameOrSalary (.list ["5", "x"]) = .error e := by
  have hsingle : true = true → Predicate.eq.arity = .single := fun _ => rfl
  have hcases := fun value => make_cases "name_or_salary_eq_any" nameAndSalary .eq value .or true hsingle
  have hshape : Value.Shapes .eq true ["5", "7"] (.list ["5", "7"]) := .list (.inr rfl)
  have hsuited : ¬ Unsuited .eq true nameAndSalary ["5", "7"] := by
    refine (not_unsuited_iff hshape).2 ⟨rfl, ?_⟩
    simp only [nameAndSalary, List.forall_mem_cons]
    exact ⟨rfl, rfl, nofun⟩
  have hmade : nameOrSalary (.list ["5", " ", "7"]) = .ok (some fiveOrSeven) :=
    ((hcases _).2.2.1 fiveOrSeven).2 ⟨by decide, hsuited, _, hshape, rfl⟩
  refine ⟨hmade, (hcases _).2.2.2 _ hmade, (hcases _).1.2 (by decide), (hcases _).2.1.2 ⟨by decide, ?_⟩⟩
  apply Unsuited.notOfType (a := ⟨"salary", "Person", [], "Person", "salary", .integer⟩) (s := "x") <;> decide

end Condition

end Criteria
