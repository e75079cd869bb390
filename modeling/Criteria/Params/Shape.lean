import Criteria.Condition
import Criteria.SortKey

/-!
# Shapes of parameters

* `indexed?` — a mapping whose keys are all positions is the list of its values by position.
* `Value.ofJson` — the value of a condition, `mappings` — the mappings of a group or record value, `readSorts` — sorts.
-/

namespace Criteria

open Number (index?)

variable {α β : Type}

/-- Puts an entry in front of the first one whose position is not below its own. -/
def insertByIndex (entry : Nat × α) : List (Nat × α) → List (Nat × α)
  | [] => [entry]
  | next :: rest => if entry.1 ≤ next.1 then entry :: next :: rest else next :: insertByIndex entry rest

/-- Entries by ascending position; those of one position stay in order. -/
def sortByIndex (entries : List (Nat × α)) : List (Nat × α) := entries.foldr insertByIndex []

/-- The positions that keys write, if each of them writes one. -/
def positions? : Keyed α → Option (List (Nat × α))
  | [] => some []
  | (key, value) :: rest =>
    match index? key, positions? rest with
    | some index, some entries => some ((index, value) :: entries)
    | _, _ => none

/-- The values of a mapping by ascending position, if it is not empty and all its keys are positions. -/
def indexed? (fields : Keyed α) : Option (List α) :=
  if fields.isEmpty then none else (positions? fields).map fun entries => (sortByIndex entries).map Prod.snd

theorem perm_insertByIndex (entry : Nat × α) (entries : List (Nat × α)) :
    (insertByIndex entry entries).Perm (entry :: entries) := by
  induction entries with
  | nil => exact .refl _
  | cons next rest ih =>
    simp only [insertByIndex]
    split
    · exact .refl _
    · exact (ih.cons next).trans (.swap entry next rest)

theorem perm_sortByIndex (entries : List (Nat × α)) : (sortByIndex entries).Perm entries := by
  induction entries with
  | nil => exact .refl _
  | cons entry rest ih => exact (perm_insertByIndex entry _).trans (ih.cons entry)

theorem pairwise_insertByIndex (entry : Nat × α) {entries : List (Nat × α)}
    (h : entries.Pairwise fun a b => a.1 ≤ b.1) : (insertByIndex entry entries).Pairwise fun a b => a.1 ≤ b.1 := by
  induction entries with
  | nil => simp [insertByIndex]
  | cons next rest ih =>
    have hnext := List.pairwise_cons.1 h
    simp only [insertByIndex]
    split
    · rename_i hle
      refine List.pairwise_cons.2 ⟨fun other hother => ?_, h⟩
      rcases List.mem_cons.1 hother with rfl | hother
      · exact hle
      · exact Nat.le_trans hle (hnext.1 other hother)
    · rename_i hlt
      refine List.pairwise_cons.2 ⟨fun other hother => ?_, ih hnext.2⟩
      rcases List.mem_cons.1 ((perm_insertByIndex entry rest).mem_iff.1 hother) with rfl | hother
      · exact Nat.le_of_lt (Nat.lt_of_not_le hlt)
      · exact hnext.1 other hother

theorem pairwise_sortByIndex (entries : List (Nat × α)) :
    (sortByIndex entries).Pairwise fun a b => a.1 ≤ b.1 := by
  induction entries with
  | nil => exact .nil
  | cons entry rest ih => exact pairwise_insertByIndex entry ih

theorem map_snd_positions? {fields : Keyed α} {entries : List (Nat × α)} (h : positions? fields = some entries) :
    entries.map Prod.snd = fields.values := by
  induction fields generalizing entries with
  | nil => simp_all [positions?, Keyed.values]
  | cons field rest ih =>
    obtain ⟨key, value⟩ := field
    simp only [positions?] at h
    split at h
    · rename_i hrest
      simp only [Option.some.injEq] at h
      subst h
      simpa [Keyed.values] using ih hrest
    · simp at h

theorem perm_indexed? {fields : Keyed α} {values : List α} (h : indexed? fields = some values) :
    values.Perm fields.values := by
  simp only [indexed?] at h
  split at h
  · simp at h
  · obtain ⟨entries, hentries, rfl⟩ := Option.map_eq_some_iff.1 h
    rw [← map_snd_positions? hentries]
    exact (perm_sortByIndex entries).map Prod.snd

theorem insertByIndex_map (f : α → β) (entry : Nat × α) (entries : List (Nat × α)) :
    insertByIndex (entry.map id f) (entries.map (Prod.map id f)) =
      (insertByIndex entry entries).map (Prod.map id f) := by
  induction entries with
  | nil => rfl
  | cons next rest ih =>
    rw [List.map_cons, insertByIndex, insertByIndex, ih]
    show (if entry.1 ≤ next.1 then _ else _) = _
    split <;> rfl

theorem sortByIndex_map (f : α → β) (entries : List (Nat × α)) :
    sortByIndex (entries.map (Prod.map id f)) = (sortByIndex entries).map (Prod.map id f) := by
  induction entries with
  | nil => rfl
  | cons entry rest ih =>
    show insertByIndex _ (sortByIndex (rest.map _)) = _
    rw [ih, insertByIndex_map]
    rfl

theorem positions?_map (f : α → β) (fields : Keyed α) :
    positions? (fields.map (Prod.map id f)) = (positions? fields).map (List.map (Prod.map id f)) := by
  induction fields with
  | nil => rfl
  | cons field rest ih =>
    obtain ⟨key, value⟩ := field
    simp only [List.map_cons, Prod.map_apply, id_eq, positions?, ih]
    cases index? key with
    | none => rfl
    | some index => cases positions? rest <;> rfl

theorem indexed?_map (f : α → β) (fields : Keyed α) :
    indexed? (fields.map (Prod.map id f)) = (indexed? fields).map (List.map f) := by
  unfold indexed?
  rw [List.isEmpty_map, positions?_map]
  split
  · rfl
  · cases positions? fields with
    | none => rfl
    | some entries => simp [sortByIndex_map]

theorem positions?_eq_none {fields : Keyed α} :
    positions? fields = none ↔ ∃ name ∈ fields.names, index? name = none := by
  induction fields with
  | nil => simp [positions?, Keyed.names]
  | cons field rest ih =>
    obtain ⟨key, value⟩ := field
    have hnames : Keyed.names ((key, value) :: rest) = key :: Keyed.names rest := rfl
    rw [hnames, positions?]
    simp only [List.mem_cons, or_and_right, exists_or, exists_eq_left, ← ih]
    cases index? key <;> cases positions? rest <;> simp

/-- A mapping is no list if it is empty or has a name that is no position. -/
theorem indexed?_eq_none {fields : Keyed α} :
    indexed? fields = none ↔ fields = [] ∨ ∃ name ∈ fields.names, index? name = none := by
  rw [← positions?_eq_none]
  cases fields <;> simp [indexed?]

/-! ## Condition values -/

/-- The text of a scalar: null is empty. -/
def scalarText? : Json → Option String
  | .string s => some s
  | .number n => some n.text
  | .bool b => some (if b then "true" else "false")
  | .null => some ""
  | .array _ | .object _ => none

/-- The text of an item of a list. -/
def itemText (item : Json) : Except SearchError String :=
  match scalarText? item with
  | some s => .ok s
  | none => .error (.invalidParams (.nestedValue item))

/-- A value, unless it is blank. -/
def Value.unlessBlank (v : Value) : Option Value := if v.isBlank then none else some v

/-- The list of the items that are not blank. -/
def Value.ofItems (items : List Json) : Except SearchError (Option Value) :=
  match collect itemText items with
  | .error e => .error e
  | .ok texts => .ok (Value.list texts).withoutBlanks.unlessBlank

/-- The value of a condition; there is none if it is blank. -/
def Value.ofJson (value : Json) : Except SearchError (Option Value) :=
  match value with
  | .array items => Value.ofItems items
  | .object fields =>
    match indexed? fields with
    | some items => Value.ofItems items
    | none => if fields.isEmpty then .ok none else .error (.invalidParams (.mappingValue value))
  | other => .ok (Value.scalar ((scalarText? other).getD "")).unlessBlank

/-! ## Groups and records -/

/-- An item that has to be a mapping. -/
def asMapping (item : Json) : Except SearchError (Keyed Json) :=
  match item with
  | .object fields => .ok fields
  | _ => .error (.invalidParams (.groupEntry item))

/-- The mappings of a value: those of a list or of positions, or the value itself. Null and blank text hold none. -/
def mappings (value : Json) : Except SearchError (List (Keyed Json)) :=
  match value with
  | .null => .ok []
  | .string s => if Text.isBlank s then .ok [] else .error (.invalidParams (.group value))
  | .array items => collect asMapping items
  | .object fields =>
    match indexed? fields with
    | some items => collect asMapping items
    | none => .ok [fields]
  | _ => .error (.invalidParams (.group value))

theorem object_mem_of_mem_collect {items : List Json} {maps : List (Keyed Json)} {m : Keyed Json}
    (h : collect asMapping items = .ok maps) (hm : m ∈ maps) : Json.object m ∈ items := by
  induction items generalizing maps with
  | nil =>
    simp only [collect, Except.ok.injEq] at h
    subst h
    simp at hm
  | cons item rest ih =>
    simp only [collect] at h
    split at h
    · simp at h
    · rename_i fields hfields
      split at h
      · simp at h
      · rename_i hrest
        simp only [Except.ok.injEq] at h
        subst h
        cases item <;> simp only [asMapping, Except.ok.injEq, reduceCtorEq] at hfields
        subst hfields
        rcases List.mem_cons.1 hm with rfl | hm
        · simp
        · exact List.mem_cons_of_mem _ (ih hrest hm)

theorem sizeOf_lt_of_mem {key : String} {value : Json} {fields : Keyed Json} (h : (key, value) ∈ fields) :
    sizeOf value < sizeOf fields := by
  have hlt := List.sizeOf_lt_of_mem h
  rw [Prod.mk.sizeOf_spec] at hlt
  omega

theorem sizeOf_lt_of_mem_mappings {value : Json} {maps : List (Keyed Json)} {m : Keyed Json}
    (h : mappings value = .ok maps) (hm : m ∈ maps) : sizeOf m < sizeOf value := by
  have hsize : sizeOf m < sizeOf (Json.object m) := by simp
  cases value with
  | null => simp_all [mappings]
  | bool b => simp_all [mappings]
  | number n => simp_all [mappings]
  | string s =>
    simp only [mappings] at h
    split at h <;> simp_all
  | array items =>
    have hmem := object_mem_of_mem_collect h hm
    have hlt := List.sizeOf_lt_of_mem hmem
    simp only [Json.array.sizeOf_spec]
    omega
  | object fields =>
    simp only [mappings] at h
    split at h
    · rename_i items hitems
      have hmem := (perm_indexed? hitems).mem_iff.1 (object_mem_of_mem_collect h hm)
      obtain ⟨⟨key, inner⟩, hfield, rfl⟩ := List.mem_map.1 hmem
      have hlt := sizeOf_lt_of_mem hfield
      simp only [Json.object.sizeOf_spec] at hlt ⊢
      omega
    · simp only [Except.ok.injEq] at h
      subst h
      simp_all

/-! ## Sorts -/

/-- The sort of a record: a name and perhaps a direction. There is none without a name. -/
def sortRecord (record : Keyed Json) : Except SearchError (Option SortKey) :=
  match record.get? "name" with
  | none | some .null => .ok none
  | some (.string name) =>
    if Text.isBlank name then .ok none
    else .ok (some ⟨Text.trim name, (((record.get? "dir").bind Json.string?).map Direction.ofText).getD .asc⟩)
  | some value => .error (.invalidParams (.sortName value))

/-- One of several sorts. -/
def sortItem (item : Json) : Except SearchError (Option SortKey) :=
  match item with
  | .string spec => .ok (SortKey.ofText? spec)
  | .object record => sortRecord record
  | _ => .error (.invalidParams (.sortEntry item))

/-- Several sorts, those that are none left out. -/
def sortItems (items : List Json) : Except SearchError (List SortKey) :=
  match collect sortItem items with
  | .error e => .error e
  | .ok keys => .ok (keys.filterMap id)

/-- The sorts of a value: a text, a record, or several of them in a list or by position. -/
def readSorts (value : Json) : Except SearchError (List SortKey) :=
  match value with
  | .null => .ok []
  | .string spec => .ok (SortKey.ofText? spec).toList
  | .array items => sortItems items
  | .object fields =>
    match indexed? fields with
    | some items => sortItems items
    | none =>
      match sortRecord fields with
      | .error e => .error e
      | .ok key => .ok key.toList
  | _ => .error (.invalidParams (.sortSpecification value))

end Criteria
