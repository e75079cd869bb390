import Criteria.Proofs.Searches.Leaves

/-!
# Values that are not blank

* `Json.isFilled`, `Keyed.isFullRecord` — the values that make a condition under a key, and the records that make one:
  told from the documents alone.
* `JsonNumber.isBlank_text` — numbers always do.
* `Value.isSome_ofJson`, `Reader.namedCondition_eq_ok`, `Reader.isSome_recordCondition` — a reader that drops nothing
  agrees, wherever it does not fail.
* `Reader.length_records` — so a list of records makes as many conditions as it has full records.
-/

namespace Criteria

/-- A text with more than spaces, a number or a truth value. -/
def Json.isFilledItem : Json → Bool
  | .string s => !Text.isBlank s
  | .number _ | .bool _ => true
  | .null | .array _ | .object _ => false

/-- A value that is filled, or has an item that is. -/
def Json.isFilled : Json → Bool
  | .array items => items.any isFilledItem
  | .object fields => (Keyed.values fields).any isFilledItem
  | value => value.isFilledItem

/-- A record with an attribute name and a value, neither of them blank. -/
def Keyed.isFullRecord (fields : Keyed Json) : Bool := ["a", "v"].all fun name => (fields.get? name).any Json.isFilled

/-! ## Numbers -/

open Number

theorem Text.isBlank_of_mem {s : String} {c : Char} (hc : c ∈ s.toList) (h : isSpace c = false) :
    isBlank s = false := by
  rw [isBlank, List.all_eq_false]
  exact ⟨c, hc, by simp [h]⟩

theorem Text.isSpace_of_isDigit {c : Char} (h : c.isDigit = true) : isSpace c = false := by
  have hrange : 48 ≤ c.toNat ∧ c.toNat ≤ 57 := Char.isDigit_iff_toNat.1 h
  simp only [isSpace, Bool.or_eq_false_iff, Bool.and_eq_false_iff, decide_eq_false_iff_not, beq_eq_false_iff_ne]
  omega

theorem exists_mem_toDigits (n : Nat) : ∃ c ∈ Nat.toDigits 10 n, Text.isSpace c = false := by
  obtain ⟨c, hc⟩ := List.exists_mem_of_ne_nil _ (Nat.toDigits_ne_nil (n := n) (b := 10))
  exact ⟨c, hc, Text.isSpace_of_isDigit (Nat.isDigit_of_mem_toDigits (by decide) (by decide) hc)⟩

theorem exists_mem_placePoint {digits : List Char} (h : ∃ c ∈ digits, Text.isSpace c = false) (point : Int) :
    ∃ c ∈ Binary64.placePoint digits point, Text.isSpace c = false := by
  unfold Binary64.placePoint
  split
  · exact ⟨'0', by simp, by decide⟩
  · split
    · exact ⟨'.', by simp, by decide⟩
    · obtain ⟨c, hc, hspace⟩ := h
      exact ⟨c, List.mem_append_left _ hc, hspace⟩

theorem Number.Binary64.isBlank_exponentText (x : Binary64) : Text.isBlank x.exponentText = false := by
  have hbody : ∀ (sign : String) (body : List Char), (∃ c ∈ body, Text.isSpace c = false) →
      Text.isBlank (sign ++ String.ofList body) = false := by
    intro sign body ⟨c, hc, hspace⟩
    exact Text.isBlank_of_mem (by simp [hc]) hspace
  apply hbody
  have hdigits := exists_mem_placePoint (exists_mem_toDigits (x.shortest .even).digits)
  split
  · exact ⟨'0', by simp, by decide⟩
  · split <;> obtain ⟨c, hc, hspace⟩ := hdigits _ <;> exact ⟨c, List.mem_append_left _ hc, hspace⟩

theorem JsonNumber.isBlank_text (n : JsonNumber) : Text.isBlank n.text = false := by
  cases n with
  | real x => exact x.isBlank_exponentText
  | integer n =>
    cases n with
    | ofNat n =>
      obtain ⟨c, hc, hspace⟩ := exists_mem_toDigits n
      apply Text.isBlank_of_mem ?_ hspace
      show c ∈ (toString n).toList
      rw [Nat.toString_eq_ofList_toDigits, String.toList_ofList]
      exact hc
    | negSucc n =>
      apply Text.isBlank_of_mem (c := '-') ?_ (by decide)
      show '-' ∈ ("-" ++ toString (n + 1)).toList
      simp

/-! ## Values -/

namespace Value

variable {v : Value}

theorem isBlank_withoutBlanks (v : Value) : v.withoutBlanks.isBlank = v.isBlank := by
  cases v with
  | scalar s => rfl
  | list ss =>
    simp only [withoutBlanks, isBlank, texts, List.all_filter]
    congr 1
    funext s
    cases Text.isBlank s <;> rfl

theorem isSome_unlessBlank (v : Value) : v.unlessBlank.isSome = !v.isBlank := by
  unfold unlessBlank
  cases v.isBlank <;> rfl

theorem isBlank_of_unlessBlank {w : Value} (h : v.unlessBlank = some w) : w.isBlank = false := by
  unfold unlessBlank at h
  split at h
  · cases h
  · rename_i hblank
    cases h
    simpa using hblank

theorem isBlank_of_itemText {item : Json} {s : String} (h : itemText item = .ok s) :
    (!Text.isBlank s) = item.isFilledItem := by
  cases item with
  | null => cases h; rfl
  | bool b => cases h; cases b <;> rfl
  | number n => cases h; simp [n.isBlank_text, Json.isFilledItem]
  | string raw => cases h; rfl
  | array items => cases h
  | object fields => cases h

/-- The texts that are not blank are those of filled items. -/
theorem map_isFilledItem {items : List Json} {texts : List String} (h : collect itemText items = .ok texts) :
    texts.map (fun s => !Text.isBlank s) = items.map Json.isFilledItem :=
  map_collect h fun _ _ hs => isBlank_of_itemText hs

theorem isSome_ofItems {items : List Json} {w : Option Value} (h : ofItems items = .ok w) :
    w.isSome = items.any Json.isFilledItem := by
  unfold ofItems at h
  split at h
  · cases h
  · rename_i texts htexts
    cases h
    have hitems := map_isFilledItem htexts
    calc (list texts).withoutBlanks.unlessBlank.isSome
        = !texts.all Text.isBlank := by rw [isSome_unlessBlank, isBlank_withoutBlanks]; rfl
      _ = (texts.map fun s => !Text.isBlank s).any id := by simp [List.any_map, List.not_all_eq_any_not]
      _ = items.any Json.isFilledItem := by rw [hitems, List.any_map]; rfl

theorem isBlank_of_ofItems {items : List Json} {w : Value} (h : ofItems items = .ok (some w)) : w.isBlank = false := by
  unfold ofItems at h
  split at h
  · cases h
  · exact isBlank_of_unlessBlank (Except.ok.inj h)

theorem isSome_ofJson {value : Json} {w : Option Value} (h : ofJson value = .ok w) : w.isSome = value.isFilled := by
  cases value with
  | null => cases h; rfl
  | bool b => cases h; cases b <;> rfl
  | number n =>
    cases h
    rw [isSome_unlessBlank]
    simp [isBlank, texts, scalarText?, n.isBlank_text, Json.isFilled, Json.isFilledItem]
  | string raw =>
    cases h
    rw [isSome_unlessBlank]
    simp [isBlank, texts, scalarText?, Json.isFilled, Json.isFilledItem]
  | array items => exact isSome_ofItems h
  | object fields =>
    simp only [ofJson] at h
    split at h
    · rename_i items hitems
      rw [isSome_ofItems h]
      exact (perm_indexed? hitems).any_eq
    · split at h
      · rename_i hempty
        cases h
        rw [List.isEmpty_iff.1 hempty]
        rfl
      · cases h

theorem isBlank_of_ofJson {value : Json} {w : Value} (h : ofJson value = .ok (some w)) : w.isBlank = false := by
  unfold ofJson at h
  split at h
  · exact isBlank_of_ofItems h
  · split at h
    · exact isBlank_of_ofItems h
    · split at h <;> cases h
  · exact isBlank_of_unlessBlank (Except.ok.inj h)

end Value

/-! ## Conditions -/

theorem Condition.map_key_make {key : String} {paths : List AttributePath} {p : Predicate} {value : Value}
    {m : Combinator} {several : Bool} {found : Option Condition} (hv : value.isBlank = false)
    (h : make key paths p value m several = .ok found) : found.map Condition.key = some key := by
  unfold make at h
  dsimp only at h
  rw [value.isBlank_withoutBlanks, hv, if_neg Bool.false_ne_true] at h
  split at h
  · cases h
  · split at h
    · cases h
    · split at h <;> cases h
      rfl

namespace Reader

variable {r : Reader}

/-- A reader that drops nothing takes results as they are. -/
theorem tolerate_of_strict (hr : r.settings.ignoreUnknown = false) (result : Except SearchError (Option Condition)) :
    r.tolerate result = result := by
  unfold tolerate
  split
  · simp [hr]
  · rfl

theorem map_key_named {key : String} {value : Value} {found : Option Condition} (hv : value.isBlank = false)
    (h : r.named key value = .ok found) : found.map Condition.key = some key := by
  rcases named_eq_ok h with ⟨hblank, -⟩ | ⟨k, paths, -, -, -, hmade⟩
  · exact absurd (hblank.symm.trans hv) (by decide)
  · exact Condition.map_key_make hv hmade

/-- A key makes a condition of its own name just if its value is filled. -/
theorem namedCondition_eq_ok (hr : r.settings.ignoreUnknown = false) {key : String} {value : Json}
    {found : Option Condition} (h : r.namedCondition key value = .ok found) :
    (value.isFilled = false ∧ found = none) ∨ (value.isFilled = true ∧ ∃ cond, found = some cond ∧ cond.key = key) := by
  unfold namedCondition at h
  split at h
  · cases h
  · rename_i hvalue
    cases h
    exact .inl ⟨(Value.isSome_ofJson hvalue).symm, rfl⟩
  · rename_i v hvalue
    rw [tolerate_of_strict hr] at h
    have hkey := map_key_named (Value.isBlank_of_ofJson hvalue) h
    exact .inr ⟨(Value.isSome_ofJson hvalue).symm, Option.map_eq_some_iff.1 hkey⟩

theorem isBlank_of_attributeName {item : Json} {name : String} (h : attributeName item = .ok name) :
    (!Text.isBlank name) = item.isFilledItem := by
  cases item <;> cases h
  rfl

/-- Some attribute names of a record are left just if they are filled. -/
theorem isEmpty_recordNames {fields : Keyed Json} {names : List String} (h : recordNames fields = .ok names) :
    names.isEmpty = !(fields.get? "a").any Json.isFilled := by
  unfold recordNames at h
  split at h
  · rename_i name hname
    cases h
    rw [hname]
    cases hblank : Text.isBlank name <;> simp [Json.isFilled, Json.isFilledItem, hblank]
  · rename_i items hitems
    split at h
    · cases h
    · rename_i raws hraws
      cases h
      have hfilled : raws.map (fun name => !Text.isBlank name) = items.map Json.isFilledItem :=
        map_collect hraws fun item name hname => isBlank_of_attributeName hname
      have hany : items.any Json.isFilledItem = raws.any fun name => !Text.isBlank name := by
        rw [← Function.id_comp Json.isFilledItem, ← List.any_map, ← hfilled, List.any_map]
        rfl
      rw [hitems, Option.any_some, Json.isFilled, hany]
      rw [Bool.eq_iff_iff]
      simp
  · cases h

/-- A record makes a condition just if it is full. -/
theorem isSome_recordCondition (hr : r.settings.ignoreUnknown = false) {fields : Keyed Json} {found : Option Condition}
    (h : r.recordCondition fields = .ok found) : found.isSome = fields.isFullRecord := by
  have hfull : fields.isFullRecord =
      ((fields.get? "a").any Json.isFilled && ((fields.get? "v").getD .null).isFilled) := by
    cases hv : fields.get? "v" <;> simp [Keyed.isFullRecord, hv, Json.isFilled, Json.isFilledItem]
  rw [recordCondition, tolerate_of_strict hr] at h
  obtain ⟨names, read, hnames, hread, hcases⟩ := record_eq_ok h
  have hempty := isEmpty_recordNames hnames
  rw [hfull, ← Value.isSome_ofJson hread]
  rcases hcases with ⟨hnothing, rfl⟩ | ⟨value, p, m, paths, rfl, hne, -, -, -, hmade⟩
  · rcases hnothing with rfl | rfl
    · simp
    · have hblank : (fields.get? "a").any Json.isFilled = false := by simpa using hempty
      rw [hblank]
      rfl
  · have hfilled : (fields.get? "a").any Json.isFilled = true := by
      cases names with
      | nil => exact absurd rfl hne
      | cons name rest => simpa using hempty
    have hkey := Condition.map_key_make (Value.isBlank_of_ofJson hread) hmade
    rw [hfilled]
    cases found with
    | none => cases hkey
    | some cond => rfl

/-- Records make as many conditions as there are full ones. -/
theorem length_records (hr : r.settings.ignoreUnknown = false) {value : Json} {conditions : List Condition}
    (h : r.records value = .ok conditions) :
    ∃ maps, mappings value = .ok maps ∧ conditions.length = maps.countP Keyed.isFullRecord := by
  unfold records at h
  split at h
  · cases h
  · rename_i maps hmaps
    split at h
    · cases h
    · rename_i results hresults
      cases h
      have hfound : results.map Option.isSome = maps.map Keyed.isFullRecord :=
        map_collect hresults fun fields found hfound => isSome_recordCondition hr hfound
      refine ⟨maps, hmaps, ?_⟩
      calc (results.filterMap id).length
          = results.countP Option.isSome := by simp [List.length_filterMap_eq_countP]
        _ = (results.map Option.isSome).countP id := by rw [List.countP_map]; rfl
        _ = maps.countP Keyed.isFullRecord := by rw [hfound, List.countP_map]; rfl

end Reader

end Criteria
