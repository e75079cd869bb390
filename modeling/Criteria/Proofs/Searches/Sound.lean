import Criteria.Proofs.Joins.Chains
import Criteria.Proofs.Searches.Leaves

/-!
# Sound conditions

* `Condition.Sound` — what every condition has that was ever made: attributes that resolve, texts that are not blank, in
  a shape for the predicate, and column types that let the predicate pass and for which the texts write values.
* `Condition.sound_of_make` — conditions are sound from the start; `Reader.Makes.sound`: whether a key or a record
  writes them.
-/

namespace Criteria

/-! ## Values -/

namespace Value

variable {v w : Value} {p : Predicate} {several : Bool}

/-- Whether a value has the shape that predicates of an arity are compiled with. -/
def fits : Value → Arity → Bool
  | scalar _, .list => false
  | list _, .flag => false
  | _, _ => true

theorem texts_ne_nil (h : v.isBlank = false) : v.texts ≠ [] := by
  intro hnil
  unfold isBlank at h
  rw [hnil] at h
  cases h

theorem texts_withoutBlanks (h : v.isBlank = false) :
    v.withoutBlanks.texts = v.texts.filter fun s => !Text.isBlank s := by
  cases v with
  | list ss => rfl
  | scalar s =>
    have hs : Text.isBlank s = false := by simpa [isBlank, texts] using h
    simp [withoutBlanks, texts, hs]

/-- A value that is not blank after its blank texts are gone has none left. -/
theorem notBlank_of_mem (h : v.withoutBlanks.isBlank = false) {s : String} (hs : s ∈ v.withoutBlanks.texts) :
    Text.isBlank s = false := by
  cases v with
  | scalar raw =>
    obtain rfl := List.mem_singleton.1 hs
    simpa [withoutBlanks, isBlank, texts] using h
  | list raws =>
    have hkept := (List.mem_filter.1 hs).2
    simpa using hkept

/-- Fitting keeps the texts. -/
theorem texts_of_fit (h : v.fit p several = .ok w) : w.texts = v.texts := by
  unfold fit at h
  split at h
  · split at h <;> cases h <;> rfl
  · split at h
    · cases h
      rfl
    · split at h <;> cases h
      rfl

theorem fits_of_fit (hs : several = true → p.arity = .single) (h : v.fit p several = .ok w) :
    w.fits p.arity = true := by
  unfold fit at h
  split at h
  · split at h <;> rename_i hlist <;> cases h
    · rcases hlist with hlist | ⟨hlist, -⟩ <;> rw [hlist] <;> rfl
    · rw [not_or] at hlist
      cases ha : p.arity with
      | list => exact absurd ha hlist.1
      | flag => rfl
      | single => rfl
  · split at h
    · rename_i hlist
      cases h
      rcases hlist with hlist | hlist
      · rw [hlist]
        rfl
      · rw [hs hlist]
        rfl
    · rename_i hlist
      split at h <;> cases h
      cases ha : p.arity with
      | list => exact absurd (.inl ha) hlist
      | flag => rfl
      | single => rfl

end Value

/-! ## Conditions -/

namespace Predicate

variable {p : Predicate} {type : ColumnType}

theorem checkColumn_eq_ok : p.checkColumn type = .ok () ↔ p.allows type = true := by
  unfold checkColumn
  split
  · rename_i h
    simp [h]
  · rename_i h
    simp [h]

theorem coerce_isOk {raw : String} : (∃ value, p.coerce raw type = .ok value) ↔ (type.coerce? raw).isSome = true := by
  unfold coerce
  cases type.coerce? raw <;> simp

end Predicate

namespace Condition

variable {c : Catalog} {root : String}

/-- What compiling a condition relies on. -/
structure Sound (c : Catalog) (root : String) (cond : Condition) : Prop where
  attributes_ne : cond.attributes ≠ []
  /-- Each attribute is what its name stands for. -/
  resolves : ∀ a ∈ cond.attributes, AttributePath.resolve c root a.name = .ok a
  texts_ne : cond.value.texts ≠ []
  notBlank : ∀ s ∈ cond.value.texts, Text.isBlank s = false
  fits : cond.value.fits cond.predicate.arity = true
  allows : ∀ a ∈ cond.attributes, cond.predicate.allows a.type = true
  /-- Each text writes a value for each column, where the predicate takes values. -/
  coerces : cond.predicate.arity ≠ .flag → ∀ a ∈ cond.attributes, ∀ s ∈ cond.value.texts,
    (a.type.coerce? s).isSome = true
  /-- Each text is a flag, where the predicate takes one. -/
  flags : cond.predicate.arity = .flag → ∀ s ∈ cond.value.texts, (Flag.parse? s).isSome = true

theorem checkAttribute_eq_ok {p : Predicate} {v : Value} {a : AttributePath} (h : checkAttribute p v a = .ok ()) :
    p.allows a.type = true ∧ (p.arity ≠ .flag → ∀ s ∈ v.texts, (a.type.coerce? s).isSome = true) := by
  unfold checkAttribute at h
  split at h
  · cases h
  · rename_i hcolumn
    refine ⟨Predicate.checkColumn_eq_ok.1 hcolumn, ?_⟩
    intro harity s hs
    rw [if_neg harity] at h
    split at h
    · cases h
    · rename_i values hvalues
      exact Predicate.coerce_isOk.1 (isOk_of_collect hvalues hs)

/-- The text of a value in the shape of a flag is the one that is checked. -/
theorem flag_of_checkFlag {p : Predicate} {v : Value} (ha : p.arity = .flag) (hv : v.fits p.arity = true)
    (h : checkFlag p v = .ok ()) : ∀ s ∈ v.texts, (Flag.parse? s).isSome = true := by
  intro s hs
  rw [ha] at hv
  cases v with
  | list raws => cases hv
  | scalar raw =>
    obtain rfl := List.mem_singleton.1 hs
    unfold checkFlag at h
    rw [if_pos ha] at h
    simp only [Value.texts] at h
    split at h
    · rename_i hflag
      exact hflag
    · cases h

/-- What is known of a condition that has been made. -/
theorem make_eq_some {key : String} {paths : List AttributePath} {p : Predicate} {value : Value} {m : Combinator}
    {several : Bool} {cond : Condition} (h : make key paths p value m several = .ok (some cond)) :
    (cond.key = key ∧ cond.attributes = paths ∧ cond.predicate = p ∧ cond.combinator = m) ∧
      value.withoutBlanks.isBlank = false ∧ value.withoutBlanks.fit p several = .ok cond.value ∧
      checkFlag p cond.value = .ok () ∧ ∀ a ∈ paths, checkAttribute p cond.value a = .ok () := by
  unfold make at h
  dsimp only at h
  generalize value.withoutBlanks = value at h ⊢
  split at h
  · cases h
  · rename_i hblank
    split at h
    · cases h
    · rename_i v hfit
      split at h
      · cases h
      · rename_i hflag
        split at h
        · cases h
        · rename_i hcheck
          cases h
          rw [Bool.not_eq_true] at hblank
          exact ⟨⟨rfl, rfl, rfl, rfl⟩, hblank, hfit, hflag, checkEach_eq_ok.1 hcheck⟩

/-- A condition is sound when it is made of attributes that resolve, and lists are asked of single values only. -/
theorem sound_of_make {key : String} {paths : List AttributePath} {p : Predicate} {value : Value} {m : Combinator}
    {several : Bool} {cond : Condition} (hne : paths ≠ [])
    (hpaths : ∀ a ∈ paths, AttributePath.resolve c root a.name = .ok a) (hs : several = true → p.arity = .single)
    (h : make key paths p value m several = .ok (some cond)) : cond.Sound c root := by
  obtain ⟨⟨-, hattributes, hp, -⟩, hblank, hfit, hflag, hcheck⟩ := make_eq_some h
  subst hattributes hp
  have htexts := Value.texts_of_fit hfit
  have hfits := Value.fits_of_fit hs hfit
  refine ⟨hne, hpaths, ?_, ?_, hfits, ?_, ?_, fun ha => flag_of_checkFlag ha hfits hflag⟩
  · rw [htexts]
    exact Value.texts_ne_nil hblank
  · intro s hs
    rw [htexts] at hs
    exact Value.notBlank_of_mem hblank hs
  · intro a ha
    exact (checkAttribute_eq_ok (hcheck a ha)).1
  · intro harity a ha
    exact (checkAttribute_eq_ok (hcheck a ha)).2 harity

end Condition

/-! ## Conditions that are read -/

theorem Predicate.takesSeveral_iff {p : Predicate} : p.takesSeveral = true ↔ p.arity = .single := by
  simp [takesSeveral]

theorem AttributePath.resolve_of_resolveAll {c : Catalog} {root : String} {names : List String}
    {paths : List AttributePath} (h : resolveAll c root names = .ok paths) {a : AttributePath} (ha : a ∈ paths) :
    resolve c root a.name = .ok a := by
  obtain ⟨name, -, hname⟩ := exists_of_mem_collect h ha
  rw [name_of_resolve hname]
  exact hname

theorem AttributePath.ne_nil_of_resolveAll {c : Catalog} {root : String} {names : List String}
    {paths : List AttributePath} (h : resolveAll c root names = .ok paths) (hn : names ≠ []) : paths ≠ [] := by
  have hlength := length_collect h
  have hpos := List.length_pos_iff.2 hn
  apply List.length_pos_iff.1
  omega

namespace Reader

variable {r : Reader} {cond : Condition}

theorem sound_of_named {key : String} {value : Value} (h : r.named key value = .ok (some cond)) :
    cond.Sound r.catalog r.root := by
  rcases named_eq_ok h with ⟨-, hnone⟩ | ⟨k, paths, -, hk, hpaths, hmade⟩
  · cases hnone
  · refine Condition.sound_of_make ?_ ?_ ?_ hmade
    · exact AttributePath.ne_nil_of_resolveAll hpaths (ConditionKey.attributes_ne_nil hk)
    · intro a ha
      exact AttributePath.resolve_of_resolveAll hpaths ha
    · intro hs
      exact Predicate.takesSeveral_iff.1 (ConditionKey.takesSeveral_of_several hk hs)

theorem takesSeveral_of_asksSeveral {p : Predicate} {v : Value} (h : asksSeveral p v = true) :
    p.takesSeveral = true := by
  cases v with
  | scalar s => cases h
  | list ss => exact (Bool.and_eq_true_iff.1 h).1

theorem sound_of_record {fields : Keyed Json} (h : r.record fields = .ok (some cond)) :
    cond.Sound r.catalog r.root := by
  obtain ⟨names, read, -, -, ⟨-, hnone⟩ | ⟨value, p, m, paths, -, hne, -, -, hpaths, hmade⟩⟩ := record_eq_ok h
  · cases hnone
  · refine Condition.sound_of_make ?_ ?_ ?_ hmade
    · exact AttributePath.ne_nil_of_resolveAll hpaths hne
    · intro a ha
      exact AttributePath.resolve_of_resolveAll hpaths ha
    · intro hs
      exact Predicate.takesSeveral_iff.1 (takesSeveral_of_asksSeveral hs)

/-- Whatever a reader makes is sound. -/
theorem Makes.sound (h : r.Makes cond) : cond.Sound r.catalog r.root := by
  cases h with
  | named h => exact sound_of_named h
  | record h => exact sound_of_record h

end Reader

end Criteria
