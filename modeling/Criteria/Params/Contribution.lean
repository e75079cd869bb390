import Criteria.Params.Shape
import Criteria.Predicate.Key
import Criteria.Settings
import Criteria.Tree

/-!
# What parameters contribute to a search

* `Reader.named`, `Reader.record` — the condition of a key and a value, and that of a record.
* `Contribution` — what an entry adds to a junction: groups, nodes, or a condition in the place of its key.
* `Reader.groups`, `Reader.junction`, `Reader.contribution` — group values, mappings and single entries, each read by
  means of the next.
-/

namespace Criteria

/-- What conditions are read against. -/
structure Reader where
  catalog : Catalog
  root : String
  settings : Settings

namespace Reader

/-! ## Conditions -/

/-- The condition that a key and a value make; there is none for a blank value. -/
def named (r : Reader) (key : String) (value : Value) : Except SearchError (Option Condition) :=
  if value.isBlank then .ok none
  else
    match ConditionKey.parse? key with
    | none => .error (.unknownPredicate key)
    | some k =>
      match AttributePath.resolveAll r.catalog r.root k.attributes with
      | .error e => .error e
      | .ok paths => Condition.make key paths k.predicate value k.combinator k.several

/-- An attribute name in a record. -/
def attributeName (item : Json) : Except SearchError String :=
  match item with
  | .string name => .ok name
  | _ => .error (.invalidParams (.attributeName item))

/-- The attribute names of a record, blank ones left out. -/
def recordNames (record : Keyed Json) : Except SearchError (List String) :=
  match record.get? "a" with
  | some (.string name) => .ok ([name].filter fun name => !Text.isBlank name)
  | some (.array items) =>
    match collect attributeName items with
    | .error e => .error e
    | .ok names => .ok (names.filter fun name => !Text.isBlank name)
  | _ => .error (.invalidParams .noAttributes)

/-- The key under which the condition of a record stands. -/
def recordKey (names : List String) (combinator : Combinator) (p : Predicate) : String :=
  Text.join ("_" ++ combinator.name ++ "_") names ++ "_" ++ p.name

/-- Whether a value asks for several values of a predicate that takes them one by one. -/
def asksSeveral (p : Predicate) : Value → Bool
  | .list ss => p.takesSeveral && 1 < ss.length
  | .scalar _ => false

/-- The condition of a record of attributes `a`, predicate `p`, value `v` and combinator `m`; there is none without an
attribute or with a blank value. -/
def record (r : Reader) (fields : Keyed Json) : Except SearchError (Option Condition) :=
  match recordNames fields with
  | .error e => .error e
  | .ok names =>
    match (fields.get? "p").bind Json.string? with
    | none => .error (.invalidParams .noPredicate)
    | some predicateName =>
      match Value.ofJson ((fields.get? "v").getD .null) with
      | .error e => .error e
      | .ok none => .ok none
      | .ok (some value) =>
        if names.isEmpty then .ok none
        else
          match Predicate.ofName? predicateName with
          | none => .error (.unknownPredicate predicateName)
          | some p =>
            let combinator := (((fields.get? "m").bind Json.string?).map Combinator.ofText).getD .and
            match AttributePath.resolveAll r.catalog r.root names with
            | .error e => .error e
            | .ok paths =>
              Condition.make (recordKey names combinator p) paths p value combinator (asksSeveral p value)

/-- Takes a condition that fails on a name that means nothing for none, where the settings ask for that. -/
def tolerate (r : Reader) (result : Except SearchError (Option Condition)) : Except SearchError (Option Condition) :=
  match result with
  | .error e => if r.settings.ignoreUnknown && e.isDroppable then .ok none else .error e
  | .ok c => .ok c

/-- The condition of a record in a search. -/
def recordCondition (r : Reader) (fields : Keyed Json) : Except SearchError (Option Condition) :=
  r.tolerate (r.record fields)

/-- The conditions of a record value. -/
def records (r : Reader) (value : Json) : Except SearchError (List Condition) :=
  match mappings value with
  | .error e => .error e
  | .ok maps =>
    match collect r.recordCondition maps with
    | .error e => .error e
    | .ok conditions => .ok (conditions.filterMap id)

/-- The condition of a key and a value in a search. -/
def namedCondition (r : Reader) (key : String) (value : Json) : Except SearchError (Option Condition) :=
  match Value.ofJson value with
  | .error e => .error e
  | .ok none => .ok none
  | .ok (some value) => r.tolerate (r.named key value)

end Reader

/-! ## Entries and groups -/

/-- What one entry adds. -/
inductive Contribution where
  /-- Groups of which one member each has to hold. -/
  | orGroups (groups : List Junction)
  /-- Nodes at the end. -/
  | nodes (nodes : List Node)
  /-- A condition in the place of its key, if there is one. -/
  | condition (c : Option Condition)

/-- A junction with what an entry adds. -/
def Junction.add (j : Junction) : Contribution → Junction
  | .orGroups groups => j ++ groups.map (Node.group .or)
  | .nodes nodes => j ++ nodes
  | .condition (some c) => j.upsert c
  | .condition none => j

namespace Reader

mutual

/-- The groups of a group value, empty ones left out. -/
def groups (r : Reader) (value : Json) : Except SearchError (List Junction) :=
  match h : mappings value with
  | .error e => .error e
  | .ok maps =>
    match collect (fun m : { m // m ∈ maps } =>
      have : sizeOf m.1 < sizeOf value := sizeOf_lt_of_mem_mappings h m.2
      r.junction m.1) maps.attach with
    | .error e => .error e
    | .ok junctions => .ok (junctions.filter fun j => !j.isEmpty)
termination_by 2 * sizeOf value

/-- The junction that the entries of a mapping make up. -/
def junction (r : Reader) (fields : Keyed Json) : Except SearchError Junction :=
  match collect (fun field : { field // field ∈ fields } =>
    have : sizeOf field.1.2 < sizeOf fields := by
      have hlt := List.sizeOf_lt_of_mem field.2
      have hle : sizeOf field.1.2 < sizeOf field.1 := by
        obtain ⟨⟨key, value⟩, hmem⟩ := field
        simp only [Prod.mk.sizeOf_spec]
        omega
      omega
    r.contribution field.1.1 field.1.2) fields.attach with
  | .error e => .error e
  | .ok contributions => .ok (contributions.foldl Junction.add [])
termination_by 2 * sizeOf fields

/-- What an entry adds. Sorts belong to the root of a search. -/
def contribution (r : Reader) (key : String) (value : Json) : Except SearchError Contribution :=
  match r.settings.role key with
  | .orGroups =>
    match r.groups value with
    | .error e => .error e
    | .ok groups => .ok (.orGroups groups)
  | .andGroups =>
    match r.groups value with
    | .error e => .error e
    | .ok groups => .ok (.nodes (groups.map (Node.group .and)))
  | .records =>
    match r.records value with
    | .error e => .error e
    | .ok conditions => .ok (.nodes (conditions.map Node.condition))
  | .sorts => .error (.invalidParams (.rootOnly key))
  | .condition =>
    match r.namedCondition key value with
    | .error e => .error e
    | .ok c => .ok (.condition c)
termination_by 2 * sizeOf value + 1

end

theorem named_eq_ok {r : Reader} {key : String} {value : Value} {found : Option Condition}
    (h : r.named key value = .ok found) :
    (value.isBlank = true ∧ found = none) ∨
      ∃ k paths, value.isBlank = false ∧ ConditionKey.parse? key = some k ∧
        AttributePath.resolveAll r.catalog r.root k.attributes = .ok paths ∧
        Condition.make key paths k.predicate value k.combinator k.several = .ok found := by
  unfold named at h
  split at h
  · rename_i hblank
    cases h
    exact .inl ⟨hblank, rfl⟩
  · rename_i hblank
    split at h
    · cases h
    · rename_i k hk
      split at h
      · cases h
      · rename_i paths hpaths
        exact .inr ⟨k, paths, by simpa using hblank, hk, hpaths, h⟩

/-- A record without an attribute or a value makes nothing; any other makes a condition of what it names. -/
theorem record_eq_ok {r : Reader} {fields : Keyed Json} {found : Option Condition} (h : r.record fields = .ok found) :
    ∃ names read, recordNames fields = .ok names ∧ Value.ofJson ((fields.get? "v").getD .null) = .ok read ∧
      (((read = none ∨ names = []) ∧ found = none) ∨
        ∃ value p m paths, read = some value ∧ names ≠ [] ∧
          ((fields.get? "p").bind Json.string?).bind Predicate.ofName? = some p ∧
          m = (((fields.get? "m").bind Json.string?).map Combinator.ofText).getD .and ∧
          AttributePath.resolveAll r.catalog r.root names = .ok paths ∧
          Condition.make (recordKey names m p) paths p value m (asksSeveral p value) = .ok found) := by
  unfold record at h
  split at h
  · cases h
  · rename_i names hnames
    split at h
    · cases h
    · rename_i predicateName hname
      split at h
      · cases h
      · rename_i hvalue
        cases h
        exact ⟨names, none, hnames, hvalue, .inl ⟨.inl rfl, rfl⟩⟩
      · rename_i value hvalue
        split at h
        · rename_i hempty
          cases h
          exact ⟨names, some value, hnames, hvalue, .inl ⟨.inr (by simpa using hempty), rfl⟩⟩
        · rename_i hempty
          split at h
          · cases h
          · rename_i p hp
            dsimp only at h
            split at h
            · cases h
            · rename_i paths hpaths
              refine ⟨names, some value, hnames, hvalue, .inr ⟨value, p, _, paths, rfl, ?_, ?_, rfl, hpaths, h⟩⟩
              · simpa using hempty
              · rw [hname]
                exact hp

theorem groups_eq (r : Reader) (value : Json) :
    r.groups value =
      match mappings value with
      | .error e => .error e
      | .ok maps =>
        match collect r.junction maps with
        | .error e => .error e
        | .ok junctions => .ok (junctions.filter fun j => !j.isEmpty) := by
  rw [groups]
  split
  · rename_i h
    simp [h]
  · rename_i h
    simp only [h, collect_attach]

theorem junction_eq (r : Reader) (fields : Keyed Json) :
    r.junction fields =
      match collect (fun field => r.contribution field.1 field.2) fields with
      | .error e => .error e
      | .ok contributions => .ok (contributions.foldl Junction.add []) := by
  rw [junction]
  simp only [collect_attach (fun field : String × Json => r.contribution field.1 field.2)]

/-- The groups of a value are the junctions of its mappings that have nodes. -/
theorem groups_eq_ok {r : Reader} {value : Json} {groups : List Junction} :
    r.groups value = .ok groups ↔ ∃ maps junctions, mappings value = .ok maps ∧
      collect r.junction maps = .ok junctions ∧ groups = junctions.filter fun j => !j.isEmpty := by
  rw [groups_eq]
  constructor
  · intro h
    split at h
    · cases h
    · rename_i maps hmaps
      split at h
      · cases h
      · rename_i junctions hjunctions
        cases h
        exact ⟨maps, junctions, hmaps, hjunctions, rfl⟩
  · rintro ⟨maps, junctions, hmaps, hjunctions, rfl⟩
    simp only [hmaps, hjunctions]

theorem junction_eq_ok {r : Reader} {fields : Keyed Json} {j : Junction} :
    r.junction fields = .ok j ↔ ∃ contributions,
      collect (fun field => r.contribution field.1 field.2) fields = .ok contributions ∧
        j = contributions.foldl Junction.add [] := by
  rw [junction_eq]
  constructor
  · intro h
    split at h
    · cases h
    · rename_i contributions hcontributions
      cases h
      exact ⟨contributions, hcontributions, rfl⟩
  · rintro ⟨contributions, hcontributions, rfl⟩
    simp only [hcontributions]

/-- What an entry adds is what its key makes of its value. -/
theorem contribution_eq_ok {r : Reader} {key : String} {value : Json} {x : Contribution}
    (h : r.contribution key value = .ok x) :
    (r.settings.role key = .orGroups ∧ ∃ groups, r.groups value = .ok groups ∧ x = .orGroups groups) ∨
      (r.settings.role key = .andGroups ∧
        ∃ groups, r.groups value = .ok groups ∧ x = .nodes (groups.map (Node.group .and))) ∨
      (r.settings.role key = .records ∧
        ∃ found, r.records value = .ok found ∧ x = .nodes (found.map Node.condition)) ∨
      (r.settings.role key = .condition ∧ ∃ found, r.namedCondition key value = .ok found ∧ x = .condition found) := by
  rw [contribution] at h
  cases hrole : r.settings.role key <;> rw [hrole] at h <;> dsimp only at h
  case sorts => cases h
  all_goals
    split at h
    · cases h
    · rename_i result hresult
      cases h
      simp [hresult]

end Reader

end Criteria
