import Criteria.Proofs.Params.Filled
import Mathlib.Data.List.TakeWhile

/-!
# The conditions that entries write

* `Settings.namedKeys`, `Settings.fullRecords` — the keys and the records of a mapping that ask for a condition.
* `Reader.Writes`, `Reader.Reads` — what one entry adds to the direct conditions of a junction, and what entries one
  after the other do.
* `Reader.replacing` — the keys that take the place of a record's condition.
* `Reader.Keeps` — a junction has the conditions of all its entries but for those, which are counted (`Reads.keeps`).
-/

namespace Criteria

/-! ## Keys of direct conditions -/

namespace Junction

variable {cond new : Condition}

/-- The keys of the direct conditions, in order. -/
def keys (j : Junction) : List String := j.conditions.map Condition.key

theorem conditions_append (j k : Junction) : conditions (j ++ k) = conditions j ++ conditions k := by
  induction j with
  | nil => rfl
  | cons node rest ih => cases node <;> simp [conditions, ih]

theorem conditions_groups (m : Combinator) (groups : List Junction) : conditions (groups.map (Node.group m)) = [] := by
  induction groups with
  | nil => rfl
  | cons group rest ih => exact ih

theorem conditions_map (found : List Condition) : conditions (found.map Node.condition) = found := by
  induction found with
  | nil => rfl
  | cons first rest ih => simp [conditions, ih]

theorem keys_append (j k : Junction) : keys (j ++ k) = keys j ++ keys k := by
  rw [keys, conditions_append, List.map_append]
  rfl

theorem conditions_add_nodes (j : Junction) (nodes : List Node) :
    (j.add (.nodes nodes)).conditions = j.conditions ++ conditions nodes := conditions_append j nodes

theorem keys_add_nodes (j : Junction) (nodes : List Node) : (j.add (.nodes nodes)).keys = j.keys ++ keys nodes :=
  keys_append j nodes

theorem keys_map (found : List Condition) : keys (found.map Node.condition) = found.map Condition.key := by
  rw [keys, conditions_map]

theorem keys_upsert (new : Condition) (j : Junction) :
    (j.upsert new).keys = if new.key ∈ j.keys then j.keys else j.keys ++ [new.key] := by
  induction j with
  | nil => rfl
  | cons node rest ih =>
    cases node with
    | group m members => exact ih
    | condition old =>
      have hcons : keys (.condition old :: rest) = old.key :: keys rest := rfl
      by_cases hkey : old.key = new.key
      · simp [upsert, hkey, keys, conditions]
      · rw [upsert, if_neg hkey, hcons]
        show old.key :: keys (upsert new rest) = _
        rw [ih]
        split <;> simp_all [Ne.symm hkey]

theorem mem_conditions_upsert (new : Condition) (j : Junction) : new ∈ (j.upsert new).conditions := by
  induction j with
  | nil => exact List.mem_singleton_self new
  | cons node rest ih =>
    cases node with
    | group m members => exact ih
    | condition old =>
      rw [upsert]
      split
      · exact List.mem_cons_self
      · exact List.mem_cons_of_mem _ ih

theorem mem_conditions_upsert_of_ne {j : Junction} (h : cond ∈ j.conditions) (hne : cond.key ≠ new.key) :
    cond ∈ (j.upsert new).conditions := by
  induction j with
  | nil => cases h
  | cons node rest ih =>
    cases node with
    | group m members => exact ih h
    | condition old =>
      rw [upsert]
      rcases List.mem_cons.1 h with rfl | h
      · rw [if_neg hne]
        exact List.mem_cons_self
      · split
        · exact List.mem_cons_of_mem _ h
        · exact List.mem_cons_of_mem _ (ih h)

end Junction

/-! ## What documents ask for -/

namespace Settings

/-- The keys that are no condition. -/
def reservedKeys (s : Settings) : List String := [s.orGroupKey, s.andGroupKey, s.conditionKey, s.sortKey]

/-- The keys that make a condition: those that are not reserved and have a filled value. -/
def namedKeys (s : Settings) (fields : Keyed Json) : List String :=
  (fields.filter fun field => !s.isReserved field.1 && field.2.isFilled).map Prod.fst

/-- The records that make a condition: the full ones under the key of records. -/
def fullRecords (s : Settings) (fields : Keyed Json) : List (Keyed Json) :=
  match fields.get? s.conditionKey with
  | some value => ((mappings value).toOption.getD []).filter Keyed.isFullRecord
  | none => []

variable {s : Settings} {fields rest : Keyed Json} {key : String} {value : Json}

theorem namedKeys_cons :
    s.namedKeys ((key, value) :: rest) =
      if !s.isReserved key && value.isFilled then key :: s.namedKeys rest else s.namedKeys rest := by
  unfold namedKeys
  rw [List.filter_cons]
  split <;> rfl

theorem namedKeys_append (before after : Keyed Json) :
    s.namedKeys (before ++ after) = s.namedKeys before ++ s.namedKeys after := by
  simp [namedKeys]

theorem mem_names_of_mem_namedKeys (h : key ∈ s.namedKeys fields) : key ∈ fields.names := by
  obtain ⟨field, hfield, rfl⟩ := List.mem_map.1 h
  exact List.mem_map_of_mem (List.mem_filter.1 hfield).1

theorem fullRecords_eq {maps : List (Keyed Json)} (h : fields.get? s.conditionKey = some value)
    (hmaps : mappings value = .ok maps) : s.fullRecords fields = maps.filter Keyed.isFullRecord := by
  rw [fullRecords, h]
  show ((mappings value).toOption.getD []).filter Keyed.isFullRecord = _
  rw [hmaps]
  rfl

theorem ne_of_nodup_reservedKeys (h : s.reservedKeys.Nodup) :
    (s.conditionKey ≠ s.orGroupKey ∧ s.conditionKey ≠ s.andGroupKey) ∧
      s.sortKey ≠ s.orGroupKey ∧ s.sortKey ≠ s.andGroupKey ∧ s.sortKey ≠ s.conditionKey := by
  simp only [reservedKeys, List.nodup_cons, List.mem_cons, List.not_mem_nil, or_false, not_or] at h
  obtain ⟨⟨-, horRecord, horSort⟩, ⟨handRecord, handSort⟩, hrecordSort, -⟩ := h
  exact ⟨⟨Ne.symm horRecord, Ne.symm handRecord⟩, Ne.symm horSort, Ne.symm handSort, Ne.symm hrecordSort⟩

theorem eq_of_role_orGroups (h : s.role key = .orGroups) : key = s.orGroupKey := by
  unfold role at h
  split_ifs at h with hkey
  exact hkey

theorem eq_of_role_andGroups (h : s.role key = .andGroups) : key = s.andGroupKey := by
  unfold role at h
  split_ifs at h with _ hkey
  exact hkey

theorem eq_of_role_records (h : s.role key = .records) : key = s.conditionKey := by
  unfold role at h
  split_ifs at h with _ _ hkey
  exact hkey

theorem isReserved_of_role (h : s.role key = .condition) : s.isReserved key = false := by
  unfold role at h
  split_ifs at h with hor hand hrecord hsort
  simp [isReserved, hor, hand, hrecord, hsort]

theorem isReserved_conditionKey : s.isReserved s.conditionKey = true := by simp [isReserved]

end Settings

namespace Reader

/-- The keys of the conditions of a record value. -/
def recordKeys (r : Reader) (value : Json) : List String := ((r.records value).toOption.getD []).map Condition.key

/-- The keys that take the place of a record's condition: those behind the records of which one has the same key. -/
def replacing (r : Reader) (fields : Keyed Json) : List String :=
  match fields.dropWhile fun field => field.1 != r.settings.conditionKey with
  | [] => []
  | (_, value) :: later => (r.settings.namedKeys later).filter (· ∈ r.recordKeys value)

/-- The direct conditions of a junction that entries write. -/
structure Keeps (r : Reader) (fields : Keyed Json) (j : Junction) : Prop where
  /-- Each key with a filled value has its condition. -/
  named : ∀ key value, (key, value) ∈ fields → r.settings.isReserved key = false → value.isFilled = true →
    ∃ cond, r.namedCondition key value = .ok (some cond) ∧ cond.key = key ∧ cond ∈ j.conditions
  /-- Each condition of a record is there unless a key takes its place. -/
  records : ∀ value, (r.settings.conditionKey, value) ∈ fields →
    ∃ found, r.records value = .ok found ∧ ∀ cond ∈ found, cond.key ∉ r.replacing fields → cond ∈ j.conditions
  /-- One condition is missing for each key that takes the place of another, and none besides. -/
  length : j.conditions.length + (r.replacing fields).length =
    (r.settings.namedKeys fields).length + (r.settings.fullRecords fields).length

section Keys

variable {r : Reader} {fields before after : Keyed Json} {value : Json}

theorem recordKeys_eq {found : List Condition} (h : r.records value = .ok found) :
    r.recordKeys value = found.map Condition.key := by
  rw [recordKeys, h]
  rfl

theorem bne_of_notMem_names {key : String} (h : key ∉ fields.names) : ∀ field ∈ fields, (field.1 != key) = true := by
  intro field hfield
  have hne : field.1 ≠ key := fun heq => h (heq ▸ List.mem_map_of_mem hfield)
  simpa using hne

theorem replacing_of_notMem (h : r.settings.conditionKey ∉ fields.names) : r.replacing fields = [] := by
  have hnone : fields.dropWhile (fun field => field.1 != r.settings.conditionKey) = [] := by
    rw [List.dropWhile_eq_nil_iff]
    exact bne_of_notMem_names h
  rw [replacing, hnone]

theorem replacing_append (h : r.settings.conditionKey ∉ before.names) :
    r.replacing (before ++ (r.settings.conditionKey, value) :: after) =
      (r.settings.namedKeys after).filter (· ∈ r.recordKeys value) := by
  have hsplit : (before ++ (r.settings.conditionKey, value) :: after).dropWhile
      (fun field => field.1 != r.settings.conditionKey) = (r.settings.conditionKey, value) :: after := by
    rw [List.dropWhile_append_of_pos (bne_of_notMem_names h)]
    simp
  rw [replacing, hsplit]

end Keys

/-! ## Entries one after the other -/

/-- What an entry adds, as far as the direct conditions go. -/
inductive Writes (r : Reader) : String × Json → Contribution → Prop
  | other {key : String} {value : Json} {nodes : List Node} (hkey : r.settings.isReserved key = true)
    (hne : key ≠ r.settings.conditionKey) (hnodes : Junction.conditions nodes = []) :
    Writes r (key, value) (.nodes nodes)
  | records {value : Json} {found : List Condition} (h : r.records value = .ok found) :
    Writes r (r.settings.conditionKey, value) (.nodes (found.map Node.condition))
  | named {key : String} {value : Json} {found : Option Condition} (hkey : r.settings.isReserved key = false)
    (h : r.namedCondition key value = .ok found) : Writes r (key, value) (.condition found)

theorem Writes.of_conditionKey {r : Reader} {value : Json} {x : Contribution}
    (h : r.Writes (r.settings.conditionKey, value) x) :
    ∃ found, r.records value = .ok found ∧ x = .nodes (found.map Node.condition) := by
  cases h with
  | other _ hne => exact absurd rfl hne
  | records h => exact ⟨_, h, rfl⟩
  | named hkey => exact absurd (hkey.symm.trans Settings.isReserved_conditionKey) (by decide)

theorem Writes.of_named {r : Reader} {key : String} {value : Json} {x : Contribution} (h : r.Writes (key, value) x)
    (hreserved : r.settings.isReserved key = false) :
    ∃ found, r.namedCondition key value = .ok found ∧ x = .condition found := by
  cases h with
  | other hkey => exact absurd (hkey.symm.trans hreserved) (by decide)
  | records => exact absurd (Settings.isReserved_conditionKey.symm.trans hreserved) (by decide)
  | named _ h => exact ⟨_, h, rfl⟩

/-- Entries take one junction to another. -/
inductive Reads (r : Reader) : Keyed Json → Junction → Junction → Prop
  | nil {j : Junction} : Reads r [] j j
  | cons {field : String × Json} {rest : Keyed Json} {x : Contribution} {j k : Junction} (h : r.Writes field x)
    (hrest : Reads r rest (j.add x) k) : Reads r (field :: rest) j k

namespace Reads

variable {r : Reader} {fields before after : Keyed Json} {i j k : Junction} {key : String} {value : Json}
  {cond : Condition}

theorem split {field : String × Json} (h : r.Reads (before ++ field :: after) i k) :
    ∃ j x, r.Reads before i j ∧ r.Writes field x ∧ r.Reads after (j.add x) k := by
  induction before generalizing i with
  | nil =>
    cases h with
    | cons hfield hrest => exact ⟨i, _, .nil, hfield, hrest⟩
  | cons first before ih =>
    cases h with
    | cons hfirst hrest =>
      obtain ⟨j, x, hbefore, hfield, hafter⟩ := ih hrest
      exact ⟨j, x, .cons hfirst hbefore, hfield, hafter⟩

/-- A condition stays where no entry has its key. -/
theorem mem_conditions (hr : r.settings.ignoreUnknown = false) (h : r.Reads fields j k) (hmem : cond ∈ j.conditions)
    (hkey : cond.key ∉ r.settings.namedKeys fields) : cond ∈ k.conditions := by
  induction h with
  | nil => exact hmem
  | @cons field rest x j k hfield hrest ih =>
    obtain ⟨name, value⟩ := field
    have hlater : cond.key ∉ r.settings.namedKeys rest := by
      rw [Settings.namedKeys_cons] at hkey
      split at hkey
      · exact fun h => hkey (List.mem_cons_of_mem _ h)
      · exact hkey
    apply ih ?_ hlater
    cases hfield with
    | other | records =>
      rw [Junction.conditions_add_nodes]
      exact List.mem_append_left _ hmem
    | @named _ _ found hreserved hmade =>
      rcases namedCondition_eq_ok hr hmade with ⟨-, rfl⟩ | ⟨hfilled, new, rfl, rfl⟩
      · exact hmem
      · apply Junction.mem_conditions_upsert_of_ne hmem
        intro hsame
        apply hkey
        rw [Settings.namedKeys_cons, hreserved, hfilled, hsame]
        exact List.mem_cons_self

/-- Without records, each entry with a condition adds its key unless it is there. -/
theorem keys_eq (hr : r.settings.ignoreUnknown = false) (h : r.Reads fields j k)
    (hrecords : r.settings.conditionKey ∉ fields.names) (hnodup : fields.names.Nodup) :
    k.keys = j.keys ++ (r.settings.namedKeys fields).filter (· ∉ j.keys) := by
  induction h with
  | nil => simp [Settings.namedKeys]
  | @cons field rest x j k hfield hrest ih =>
    obtain ⟨name, value⟩ := field
    have hnames : Keyed.names ((name, value) :: rest) = name :: rest.names := rfl
    rw [hnames, List.nodup_cons] at hnodup
    rw [hnames, List.mem_cons, not_or] at hrecords
    rw [ih hrecords.2 hnodup.2, Settings.namedKeys_cons]
    cases hfield with
    | @other _ _ nodes hreserved hne hnodes =>
      have hnone : Junction.keys nodes = [] := by rw [Junction.keys, hnodes, List.map_nil]
      rw [Junction.keys_add_nodes, hnone, List.append_nil, hreserved]
      rfl
    | records => exact absurd rfl hrecords.1
    | @named _ _ found hreserved hmade =>
      rcases namedCondition_eq_ok hr hmade with ⟨hfilled, rfl⟩ | ⟨hfilled, new, rfl, rfl⟩
      · rw [hfilled, Bool.and_false]
        rfl
      · -- The entries behind have other names, so none of them asks for this key again.
        have hother : new.key ∉ r.settings.namedKeys rest :=
          fun h => hnodup.1 (Settings.mem_names_of_mem_namedKeys h)
        have hkeys : (j.add (.condition (some new))).keys = _ := Junction.keys_upsert new j
        rw [hkeys, hreserved, hfilled]
        show _ = j.keys ++ (new.key :: r.settings.namedKeys rest).filter (· ∉ j.keys)
        by_cases hthere : new.key ∈ j.keys
        · rw [if_pos hthere, List.filter_cons_of_neg (by simpa using hthere)]
        · have hfilter : (r.settings.namedKeys rest).filter (· ∉ j.keys ++ [new.key]) =
              (r.settings.namedKeys rest).filter (· ∉ j.keys) := by
            apply List.filter_congr
            intro key hkey
            have hne : key ≠ new.key := fun h => hother (h ▸ hkey)
            simp [hne]
          rw [if_neg hthere, List.filter_cons_of_pos (by simpa using hthere), hfilter, List.append_assoc]
          rfl

theorem mem_conditions_named (hr : r.settings.ignoreUnknown = false) (hnodup : fields.names.Nodup)
    (h : r.Reads fields j k) (hmem : (key, value) ∈ fields) (hreserved : r.settings.isReserved key = false)
    (hfilled : value.isFilled = true) :
    ∃ cond, r.namedCondition key value = .ok (some cond) ∧ cond.key = key ∧ cond ∈ k.conditions := by
  obtain ⟨before, after, rfl, -, hafter, -⟩ := Keyed.split_of_mem hnodup hmem
  obtain ⟨i, x, -, hfield, hrest⟩ := h.split
  obtain ⟨found, hmade, rfl⟩ := hfield.of_named hreserved
  rcases namedCondition_eq_ok hr hmade with ⟨hblank, -⟩ | ⟨-, new, rfl, rfl⟩
  · exact absurd (hblank.symm.trans hfilled) (by decide)
  · refine ⟨new, hmade, rfl, hrest.mem_conditions hr (Junction.mem_conditions_upsert new i) ?_⟩
    exact fun h => hafter (Settings.mem_names_of_mem_namedKeys h)

theorem mem_conditions_record (hr : r.settings.ignoreUnknown = false) (hnodup : fields.names.Nodup)
    (h : r.Reads fields j k) (hmem : (r.settings.conditionKey, value) ∈ fields) :
    ∃ found, r.records value = .ok found ∧ ∀ cond ∈ found, cond.key ∉ r.replacing fields → cond ∈ k.conditions := by
  obtain ⟨before, after, rfl, hbefore, -⟩ := Keyed.split_of_mem hnodup hmem
  obtain ⟨i, x, -, hfield, hrest⟩ := h.split
  obtain ⟨found, hfound, rfl⟩ := hfield.of_conditionKey
  refine ⟨found, hfound, ?_⟩
  intro cond hcond hkey
  have hadded : cond ∈ (i.add (.nodes (found.map Node.condition))).conditions := by
    rw [Junction.conditions_add_nodes, Junction.conditions_map]
    exact List.mem_append_right _ hcond
  apply hrest.mem_conditions hr hadded
  intro hlater
  rw [replacing_append hbefore, List.mem_filter, recordKeys_eq hfound] at hkey
  exact hkey ⟨hlater, decide_eq_true (List.mem_map_of_mem hcond)⟩

theorem length_keys_of_mem (hr : r.settings.ignoreUnknown = false) (hnodup : fields.names.Nodup)
    (h : r.Reads fields [] k) (hmem : (r.settings.conditionKey, value) ∈ fields) :
    k.keys.length + (r.replacing fields).length =
      (r.settings.namedKeys fields).length + (r.settings.fullRecords fields).length := by
  have hvalue := Keyed.get?_of_mem hnodup hmem
  obtain ⟨before, after, rfl, hbefore, hafter, hnodupBefore, hnodupAfter, hdisjoint⟩ := Keyed.split_of_mem hnodup hmem
  obtain ⟨i, x, hreads, hfield, hrest⟩ := h.split
  obtain ⟨found, hfound, rfl⟩ := hfield.of_conditionKey
  have hkeys : i.keys = r.settings.namedKeys before := by
    rw [hreads.keys_eq hr hbefore hnodupBefore]
    simp [Junction.keys, Junction.conditions]
  -- Of the keys that are there already, the entries behind can only meet those of the records.
  have hlater : (r.settings.namedKeys after).filter (· ∉ r.settings.namedKeys before ++ r.recordKeys value) =
      (r.settings.namedKeys after).filter (· ∉ r.recordKeys value) := by
    apply List.filter_congr
    intro key hkey
    have hnew : key ∉ r.settings.namedKeys before := fun h =>
      hdisjoint key (Settings.mem_names_of_mem_namedKeys h) (Settings.mem_names_of_mem_namedKeys hkey)
    simp [hnew]
  have hall : k.keys = r.settings.namedKeys before ++ r.recordKeys value ++
      (r.settings.namedKeys after).filter (· ∉ r.recordKeys value) := by
    rw [hrest.keys_eq hr hafter hnodupAfter, Junction.keys_add_nodes, hkeys, Junction.keys_map, ← recordKeys_eq hfound,
      hlater]
  have hnamed : r.settings.namedKeys (before ++ (r.settings.conditionKey, value) :: after) =
      r.settings.namedKeys before ++ r.settings.namedKeys after := by
    rw [Settings.namedKeys_append, Settings.namedKeys_cons, Settings.isReserved_conditionKey]
    rfl
  obtain ⟨maps, hmaps, hlength⟩ := length_records hr hfound
  have hfull : (r.settings.fullRecords (before ++ (r.settings.conditionKey, value) :: after)).length =
      (r.recordKeys value).length := by
    rw [Settings.fullRecords_eq hvalue hmaps, ← List.countP_eq_length_filter, ← hlength, recordKeys_eq hfound,
      List.length_map]
  have hparts := List.length_eq_countP_add_countP (· ∈ r.recordKeys value) (l := r.settings.namedKeys after)
  simp only [List.countP_eq_length_filter, decide_eq_true_eq] at hparts
  rw [hall, replacing_append hbefore, hnamed, hfull]
  simp only [List.length_append]
  omega

theorem length_keys (hr : r.settings.ignoreUnknown = false) (hnodup : fields.names.Nodup) (h : r.Reads fields [] k) :
    k.keys.length + (r.replacing fields).length =
      (r.settings.namedKeys fields).length + (r.settings.fullRecords fields).length := by
  by_cases hrecords : r.settings.conditionKey ∈ fields.names
  · obtain ⟨⟨key, value⟩, hmem, hkey⟩ := List.mem_map.1 hrecords
    dsimp only at hkey
    subst hkey
    exact h.length_keys_of_mem hr hnodup hmem
  · have hnone : fields.get? r.settings.conditionKey = none := by
      rw [Option.eq_none_iff_forall_ne_some]
      intro value hvalue
      exact hrecords (List.mem_map_of_mem (Keyed.mem_of_get? hvalue))
    have hkeys := h.keys_eq hr hrecords hnodup
    have hfull : r.settings.fullRecords fields = [] := by rw [Settings.fullRecords, hnone]
    rw [hkeys, replacing_of_notMem hrecords, hfull]
    simp [Junction.keys, Junction.conditions]

/-- Entries with different names leave out what they replace and nothing else. -/
theorem keeps (hr : r.settings.ignoreUnknown = false) (hnodup : fields.names.Nodup) (h : r.Reads fields [] k) :
    r.Keeps fields k where
  named _ _ hmem hreserved hfilled := h.mem_conditions_named hr hnodup hmem hreserved hfilled
  records _ hmem := h.mem_conditions_record hr hnodup hmem
  length := by
    rw [← h.length_keys hr hnodup, Junction.keys, List.length_map]

end Reads

variable {r : Reader} {fields : Keyed Json} {j : Junction} {key : String} {value : Json} {x : Contribution}

/-- An entry writes what it contributes; or-groups go elsewhere at the root. -/
theorem writes_of_contribution (hkeys : r.settings.reservedKeys.Nodup) (h : r.contribution key value = .ok x) :
    (∃ groups, x = .orGroups groups ∧ ∀ nodes, Junction.conditions nodes = [] → r.Writes (key, value) (.nodes nodes)) ∨
      r.Writes (key, value) x := by
  obtain ⟨hor, hand⟩ := (Settings.ne_of_nodup_reservedKeys hkeys).1
  rcases contribution_eq_ok h with ⟨hrole, groups, -, rfl⟩ | ⟨hrole, groups, -, rfl⟩ | ⟨hrole, found, hfound, rfl⟩ |
    ⟨hrole, found, hfound, rfl⟩
  · obtain rfl := Settings.eq_of_role_orGroups hrole
    exact .inl ⟨groups, rfl, fun nodes hnodes => .other (by simp [Settings.isReserved]) hor.symm hnodes⟩
  · obtain rfl := Settings.eq_of_role_andGroups hrole
    exact .inr (.other (by simp [Settings.isReserved]) hand.symm (Junction.conditions_groups .and groups))
  · obtain rfl := Settings.eq_of_role_records hrole
    exact .inr (.records hfound)
  · exact .inr (.named (Settings.isReserved_of_role hrole) hfound)

theorem reads_of_collect (hkeys : r.settings.reservedKeys.Nodup) {xs : List Contribution}
    (h : collect (fun field => r.contribution field.1 field.2) fields = .ok xs) (j : Junction) :
    r.Reads fields j (xs.foldl Junction.add j) := by
  induction fields generalizing xs j with
  | nil =>
    cases h
    exact .nil
  | cons field rest ih =>
    unfold collect at h
    split at h
    · cases h
    · rename_i x hx
      split at h
      · cases h
      · rename_i ys hys
        cases h
        rcases writes_of_contribution hkeys hx with ⟨groups, rfl, hwrites⟩ | hwrites
        · exact .cons (hwrites _ (Junction.conditions_groups .or groups)) (ih hys _)
        · exact .cons hwrites (ih hys _)

theorem reads_of_junction (hkeys : r.settings.reservedKeys.Nodup) (h : r.junction fields = .ok j) :
    r.Reads fields [] j := by
  obtain ⟨xs, hxs, rfl⟩ := junction_eq_ok.1 h
  exact reads_of_collect hkeys hxs []

end Reader

end Criteria
