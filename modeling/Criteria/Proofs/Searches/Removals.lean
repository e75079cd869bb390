import Criteria.Proofs.Searches.Accessors

/-!
# Conditions taken out by key

* `Junction.valuesOf` — the values of all direct conditions of a key; taking the key out drops the first of them
  (`valuesOf_remove`).
* `Settings.WithoutRecords`, `Search.DistinctKeys` — entries that write no records give junctions in which no key stands
  twice, and operations keep that (`distinctKeys_performAll`).
* `Search.blank_takes_out_first` — a blank value takes out one condition of its key; a second one, which only records
  can write, is read from then on.
* `Search.not_get_blank` — so a key may have a value after its condition has been taken out.
-/

namespace Criteria

/-! ## Keys that stand several times -/

namespace Junction

variable {j : Junction} {key : String}

/-- The values of the direct conditions of a key, in order. -/
def valuesOf (key : String) (j : Junction) : List Value :=
  (j.conditions.filter fun cond => cond.key == key).map Condition.value

@[simp] theorem valuesOf_nil (key : String) : valuesOf key [] = [] := rfl

@[simp] theorem valuesOf_cons_group (key : String) (m : Combinator) (members : List Node) (j : Junction) :
    valuesOf key (.group m members :: j) = valuesOf key j := rfl

theorem valuesOf_cons_condition (key : String) (cond : Condition) (j : Junction) :
    valuesOf key (.condition cond :: j) = if cond.key = key then cond.value :: valuesOf key j else valuesOf key j := by
  by_cases h : cond.key = key <;> simp [valuesOf, conditions, h]

theorem get?_eq_head? (key : String) (j : Junction) : get? key j = (valuesOf key j).head? := by
  rw [get?, condition?, valuesOf, List.head?_map, List.head?_filter]

theorem length_valuesOf (key : String) (j : Junction) : (valuesOf key j).length = (keys j).count key := by
  rw [valuesOf, keys, List.length_map, List.count_eq_countP, List.countP_map, List.countP_eq_length_filter]
  rfl

theorem valuesOf_remove (key : String) (j : Junction) : valuesOf key (j.remove key) = (valuesOf key j).tail := by
  induction j with
  | nil => rfl
  | cons node rest ih =>
    cases node with
    | group m members => simpa [remove] using ih
    | condition old =>
      by_cases h : old.key = key
      · simp [remove, h, valuesOf_cons_condition]
      · simpa [remove, h, valuesOf_cons_condition] using ih

theorem keys_remove (key : String) (j : Junction) : keys (j.remove key) = (keys j).erase key := by
  induction j with
  | nil => rfl
  | cons node rest ih =>
    cases node with
    | group m members => simpa [remove] using ih
    | condition old =>
      by_cases h : old.key = key
      · simp [remove, h]
      · simpa [remove, h, List.erase_cons] using ih

theorem get?_remove (key : String) (j : Junction) : get? key (j.remove key) = (valuesOf key j)[1]? := by
  rw [get?_eq_head?, valuesOf_remove, List.head?_tail]

theorem get?_remove_eq_none : get? key (j.remove key) = none ↔ j.keys.count key ≤ 1 := by
  rw [get?_remove, List.getElem?_eq_none_iff, length_valuesOf]

theorem notMem_keys_remove : key ∉ keys (j.remove key) ↔ j.keys.count key ≤ 1 := by
  rw [← List.count_eq_zero, keys_remove, List.count_erase_self]
  omega

end Junction

/-! ## Junctions in which no key stands twice -/

namespace Settings

/-- No entry holds records, nor does one of a group at any depth. -/
def WithoutRecords (s : Settings) (fields : Keyed Json) : Prop :=
  ∀ inner : Keyed Json, Relation.ReflTransGen s.HasGroup fields inner → s.conditionKey ∉ inner.names

variable {s : Settings} {fields group rest : Keyed Json} {entry : String × Json}

theorem WithoutRecords.of_hasGroup (h : s.WithoutRecords fields) (hgroup : s.HasGroup fields group) :
    s.WithoutRecords group :=
  fun inner hinner => h inner (.head hgroup hinner)

theorem WithoutRecords.tail (h : s.WithoutRecords (entry :: rest)) : s.WithoutRecords rest := by
  intro inner hinner
  rcases hinner.cases_head with rfl | ⟨group, ⟨key, value, maps, hfield, hgroup⟩, hinner⟩
  · exact fun hmem => h _ .refl (List.mem_cons_of_mem _ hmem)
  · exact h inner (.head ⟨key, value, maps, List.mem_cons_of_mem _ hfield, hgroup⟩ hinner)

theorem WithoutRecords.ne (h : s.WithoutRecords fields) {key : String} {value : Json} (hfield : (key, value) ∈ fields) :
    key ≠ s.conditionKey := by
  rintro rfl
  exact h fields .refl (List.mem_map_of_mem hfield)

end Settings

namespace Junction

variable {j : Junction} {key : String}

theorem nodup_keys_upsert (cond : Condition) (h : j.keys.Nodup) : (j.upsert cond).keys.Nodup := by
  rw [keys_upsert]
  split
  · exact h
  · rename_i hnew
    refine List.nodup_append.2 ⟨h, by simp, ?_⟩
    intro other hother last hlast hsame
    rw [List.mem_singleton.1 hlast] at hsame
    exact hnew (hsame ▸ hother)

theorem nodup_keys_remove (key : String) (h : j.keys.Nodup) : (j.remove key).keys.Nodup := by
  rw [keys_remove]
  exact h.erase key

theorem nodup_keys_add {r : Reader} {value : Json} {x : Contribution} (hx : r.contribution key value = .ok x)
    (hkey : key ≠ r.settings.conditionKey) (h : j.keys.Nodup) : (j.add x).keys.Nodup := by
  have hgroups (m : Combinator) (groups : List Junction) : keys (groups.map (Node.group m)) = [] := by
    rw [keys, conditions_groups, List.map_nil]
  rcases Reader.contribution_eq_ok hx with ⟨-, groups, -, rfl⟩ | ⟨-, groups, -, rfl⟩ | ⟨hrole, -⟩ | ⟨-, found, -, rfl⟩
  · simpa [add, keys_append, hgroups] using h
  · simpa [add, keys_append, hgroups] using h
  · exact absurd (Settings.eq_of_role_records hrole) hkey
  · cases found with
    | none => exact h
    | some cond => exact nodup_keys_upsert cond h

end Junction

namespace Reader

variable {r : Reader} {fields : Keyed Json} {value : Json} {groups : List Junction} {j : Junction}

theorem nodup_keys_of_junction (hrecords : r.settings.WithoutRecords fields) (h : r.junction fields = .ok j) :
    j.keys.Nodup := by
  obtain ⟨xs, hxs, rfl⟩ := junction_eq_ok.1 h
  apply List.foldlRecOn (motive := fun j : Junction => j.keys.Nodup)
  · simp
  · intro j hj x hx
    obtain ⟨⟨key, value⟩, hfield, hmade⟩ := exists_of_mem_collect hxs hx
    exact Junction.nodup_keys_add hmade (hrecords.ne hfield) hj

theorem nodup_keys_of_groups (hrecords : ∀ maps, mappings value = .ok maps → ∀ m ∈ maps, r.settings.WithoutRecords m)
    (h : r.groups value = .ok groups) : ∀ j ∈ groups, j.keys.Nodup := by
  obtain ⟨maps, junctions, hmaps, hjunctions, rfl⟩ := groups_eq_ok.1 h
  intro j hj
  obtain ⟨m, hm, hmade⟩ := exists_of_mem_collect hjunctions (List.mem_filter.1 hj).1
  exact nodup_keys_of_junction (hrecords maps hmaps m hm) hmade

end Reader

namespace Search

variable {c : Catalog} {q q' after : Search} {params : Keyed Json} {key : String} {value : Value} {index : Nat}

/-- In the base and in each or-group, no two conditions have the same key. -/
structure DistinctKeys (q : Search) : Prop where
  base : q.base.keys.Nodup
  ors : ∀ j ∈ q.ors, j.keys.Nodup

/-- The groups that an operation brings in hold no records. -/
def Operation.WithoutRecords (s : Settings) : Operation → Prop
  | .pushOrs value | .setOrs value => ∀ maps, mappings value = .ok maps → ∀ m ∈ maps, s.WithoutRecords m
  | _ => True

theorem distinctKeys_add {x : Contribution} {value : Json} (hx : (q.reader c).contribution key value = .ok x)
    (hkey : key ≠ q.settings.conditionKey)
    (hgroups : key = q.settings.orGroupKey →
      ∀ maps, mappings value = .ok maps → ∀ m ∈ maps, q.settings.WithoutRecords m)
    (hq : q.DistinctKeys) : (q.add x).DistinctKeys := by
  cases x with
  | orGroups groups =>
    obtain ⟨hrole, more, hmore, hsame⟩ | ⟨-, more, -, hother⟩ | ⟨-, found, -, hother⟩ | ⟨-, found, -, hother⟩ :=
      Reader.contribution_eq_ok hx
    · cases hsame
      refine ⟨hq.base, List.forall_mem_append.2 ⟨hq.ors, ?_⟩⟩
      exact Reader.nodup_keys_of_groups (hgroups (Settings.eq_of_role_orGroups hrole)) hmore
    all_goals cases hother
  | nodes members => exact ⟨Junction.nodup_keys_add hx hkey hq.base, hq.ors⟩
  | condition found => exact ⟨Junction.nodup_keys_add hx hkey hq.base, hq.ors⟩

theorem distinctKeys_addEntries (hrecords : q.settings.WithoutRecords params) (h : addEntries c q params = .ok q')
    (hq : q.DistinctKeys) : q'.DistinctKeys := by
  induction params generalizing q with
  | nil =>
    cases h
    exact hq
  | cons entry rest ih =>
    obtain ⟨key, value⟩ := entry
    rcases addEntries_cons_eq_ok h with ⟨-, sorts, hrest⟩ | ⟨-, x, hx, hrest⟩
    · exact ih (q := { q with sorts := sorts }) hrecords.tail hrest ⟨hq.base, hq.ors⟩
    · refine ih (q := q.add x) (by rw [settings_add]; exact hrecords.tail) hrest ?_
      refine distinctKeys_add hx (hrecords.ne List.mem_cons_self) ?_ hq
      intro hkey maps hmaps m hm
      exact hrecords.of_hasGroup ⟨key, value, maps, List.mem_cons_self, .inl hkey, hmaps, hm⟩

theorem distinctKeys_build {root : String} {settings : Settings} (hrecords : settings.WithoutRecords params)
    (h : build c root settings params = .ok q) : q.DistinctKeys := by
  unfold build at h
  split at h
  · cases h
  · exact distinctKeys_addEntries hrecords h ⟨List.nodup_nil, fun _ hgroup => absurd hgroup List.not_mem_nil⟩

theorem nodup_keys_putCondition {r : Reader} {j k : Junction} (h : putCondition r j key value = .ok k)
    (hj : j.keys.Nodup) : k.keys.Nodup := by
  unfold putCondition at h
  split at h <;> cases h
  · exact Junction.nodup_keys_upsert _ hj
  · exact Junction.nodup_keys_remove key hj

theorem distinctKeys_step {op : Operation} (h : Step c q op q') (hop : op.WithoutRecords q.settings)
    (hq : q.DistinctKeys) : q'.DistinctKeys := by
  cases h with
  | keeps | sorts => exact ⟨hq.base, hq.ors⟩
  | set h => exact ⟨nodup_keys_putCondition h hq.base, hq.ors⟩
  | @orSet index key value group new hgroup h =>
    have hnew := nodup_keys_putCondition h (hq.ors group (List.mem_of_getElem? hgroup))
    refine ⟨hq.base, fun j hj => ?_⟩
    rcases List.mem_or_eq_of_mem_set hj with hj | rfl
    · exact hq.ors j hj
    · exact hnew
  | orAppend h =>
    exact ⟨hq.base, List.forall_mem_append.2 ⟨hq.ors, by simpa using nodup_keys_putCondition h List.nodup_nil⟩⟩
  | pushOrs h => exact ⟨hq.base, List.forall_mem_append.2 ⟨hq.ors, Reader.nodup_keys_of_groups (r := q.reader c) hop h⟩⟩
  | setOrs h => exact ⟨hq.base, Reader.nodup_keys_of_groups (r := q.reader c) hop h⟩
  | clears => exact ⟨hq.base, nofun⟩
  | reverses => exact ⟨hq.base, by simpa using hq.ors⟩

theorem settings_perform (q : Search) (op : Operation) : (q.perform c op).settings = q.settings :=
  congrArg Reader.settings (reader_perform q op)

/-- Without records, no key stands twice in one junction, whatever is done. -/
theorem distinctKeys_performAll {ops : List Operation} (hops : ∀ op ∈ ops, op.WithoutRecords q.settings)
    (hq : q.DistinctKeys) : (q.performAll c ops).DistinctKeys := by
  refine (performAll_induction (p := fun q' => q'.settings = q.settings ∧ q'.DistinctKeys) ⟨rfl, hq⟩ ?_).2
  rintro q' op hop ⟨hsettings, hq'⟩
  rw [settings_perform, hsettings]
  exact ⟨rfl, distinctKeys_step (step_perform c q' op) (by rw [hsettings]; exact hops op hop) hq'⟩

/-! ## Blank values -/

theorem set_of_isBlank (h : value.isBlank = true) : q.set c key value = (after, .ok ()) ↔
    q.isAccessor c key = true ∧ after = { q with base := q.base.remove key } := by
  simp [set_eq_ok, putCondition_of_isBlank h, @eq_comm _ (q.base.remove key)]

theorem orSet_of_isBlank (h : value.isBlank = true) : q.orSet c index key value = (after, .ok ()) ↔
    q.isAccessor c key = true ∧ index ≤ q.ors.length ∧
      after = { q with ors := q.ors.modify index (Junction.remove key) } := by
  rw [orSet_eq_ok, putCondition_of_isBlank h, List.modify_eq_set]
  apply and_congr_right
  intro _
  constructor
  · rintro (⟨group, new, hgroup, hput, rfl⟩ | ⟨rfl, new, hput, rfl⟩)
    · rw [putCondition_of_isBlank h] at hput
      cases hput
      exact ⟨Nat.le_of_lt (List.getElem?_eq_some_iff.1 hgroup).1, by rw [hgroup]; rfl⟩
    · cases hput
      exact ⟨Nat.le_refl _, by simp [Junction.remove, List.set_eq_of_length_le]⟩
  · rintro ⟨hindex, rfl⟩
    cases hgroup : q.ors[index]? with
    | some group => exact .inl ⟨group, _, rfl, putCondition_of_isBlank h, by simp⟩
    | none =>
      have hlength := List.getElem?_eq_none_iff.1 hgroup
      exact .inr ⟨by omega, [], rfl, by simp [List.set_eq_of_length_le hlength]⟩

/-- A blank value takes out the first condition of a key, in the base or in an or-group, and nothing else; after the
last group it does nothing. The key then reads the second value that it had. It reads none, and no direct condition of
it is left, just if it stood there at most once; so it is as long as no records have been read. -/
theorem blank_takes_out_first (c : Catalog) (q after : Search) (key : String) (value : Value)
    (hvalue : value.isBlank = true) :
    (q.set c key value = (after, .ok ()) ↔
      q.isAccessor c key = true ∧ after = { q with base := q.base.remove key }) ∧
    (q.set c key value = (after, .ok ()) →
      after.get c key = .ok (q.base.valuesOf key)[1]? ∧
      (after.get c key = .ok none ↔ q.base.keys.count key ≤ 1) ∧
      (key ∉ after.base.keys ↔ q.base.keys.count key ≤ 1)) ∧
    (∀ index, q.orSet c index key value = (after, .ok ()) ↔
      q.isAccessor c key = true ∧ index ≤ q.ors.length ∧
        after = { q with ors := q.ors.modify index (Junction.remove key) }) ∧
    (∀ (index : Nat) (group : Junction), (q.ors[index]?).getD [] = group → q.orSet c index key value = (after, .ok ()) →
      after.orGet c index key = .ok (group.valuesOf key)[1]? ∧
      (after.orGet c index key = .ok none ↔ group.keys.count key ≤ 1) ∧
      (key ∉ Junction.keys ((after.ors[index]?).getD []) ↔ group.keys.count key ≤ 1)) ∧
    ∀ (root : String) (settings : Settings) (params : Keyed Json) (built : Search) (ops : List Operation),
      build c root settings params = .ok built → settings.WithoutRecords params →
      (∀ op ∈ ops, op.WithoutRecords settings) → q = built.performAll c ops →
        q.base.keys.count key ≤ 1 ∧ ∀ group ∈ q.ors, group.keys.count key ≤ 1 := by
  refine ⟨set_of_isBlank hvalue, ?_, fun index => orSet_of_isBlank hvalue, ?_, ?_⟩
  · intro h
    obtain ⟨hkey, rfl⟩ := (set_of_isBlank hvalue).1 h
    rw [get_of_isAccessor (by rwa [isAccessor_congr rfl]), Except.ok.injEq, Except.ok.injEq]
    exact ⟨Junction.get?_remove key q.base, Junction.get?_remove_eq_none, Junction.notMem_keys_remove⟩
  · rintro index group rfl h
    obtain ⟨hkey, -, rfl⟩ := (orSet_of_isBlank hvalue).1 h
    have hgroup : ((q.ors.modify index (Junction.remove key))[index]?).getD [] =
        Junction.remove key ((q.ors[index]?).getD []) := by
      rw [List.getElem?_modify_eq]
      cases q.ors[index]? <;> rfl
    rw [orGet_of_isAccessor (by rwa [isAccessor_congr rfl]), Except.ok.injEq, Except.ok.injEq, hgroup]
    exact ⟨Junction.get?_remove key _, Junction.get?_remove_eq_none, Junction.notMem_keys_remove⟩
  · rintro root settings params built ops hbuild hparams hops rfl
    have hsettings : built.settings = settings := settings_of_build hbuild
    have hdistinct := distinctKeys_performAll (c := c) (by rwa [hsettings]) (distinctKeys_build hparams hbuild)
    refine ⟨List.nodup_iff_count.1 hdistinct.base key, ?_⟩
    intro group hgroup
    exact List.nodup_iff_count.1 (hdistinct.ors group hgroup) key

/-- What a record and a key write, or two records. -/
def searchFor (params : Keyed Json) : Except SearchError Search := build family.catalog "Person" .default params

/-- Two records of one key. -/
def twinSearch : Search :=
  (searchFor [("c", .array [nameRecord "Ernie", nameRecord "Bert"])]).toOption.get (by decide +kernel)

/-- A key alone, and an or-group in which it stands too. -/
def singleBuilt : Search := (searchFor [("name_eq", .string "Ernie")]).toOption.get (by decide +kernel)

def singleSearch : Search := singleBuilt.performAll family.catalog [.orSet 0 "name_eq" (.scalar "Bert")]

theorem blank_takes_out_first_twins :
    (∃ after, twinSearch.set family.catalog "name_eq" (.scalar " ") = (after, .ok ()) ∧
      after.get family.catalog "name_eq" = .ok (some (.scalar "Bert"))) ∧
    (∃ after, singleSearch.set family.catalog "name_eq" (.scalar "") = (after, .ok ()) ∧
      after.get family.catalog "name_eq" = .ok none) ∧
    ∃ after, singleSearch.orSet family.catalog 0 "name_eq" (.list []) = (after, .ok ()) ∧
      after.orGet family.catalog 0 "name_eq" = .ok none ∧ after.ors.length = 1 := by
  have hrecords : Settings.default.WithoutRecords [("name_eq", .string "Ernie")] := by
    intro inner hinner
    rcases hinner.cases_head with rfl | ⟨group, ⟨key, value, maps, hfield, hkey, -⟩, -⟩
    · decide
    · simp only [List.mem_singleton, Prod.mk.injEq] at hfield
      rw [hfield.1] at hkey
      exact absurd hkey (by decide)
  have hbuild : build family.catalog "Person" .default [("name_eq", .string "Ernie")] = .ok singleBuilt :=
    eq_ok_get _
  have hcount (key : String) : singleSearch.base.keys.count key ≤ 1 ∧
      ∀ group ∈ singleSearch.ors, group.keys.count key ≤ 1 :=
    (blank_takes_out_first family.catalog singleSearch singleSearch key (.scalar "") (by decide)).2.2.2.2 _ _ _ _
      [.orSet 0 "name_eq" (.scalar "Bert")] hbuild hrecords (by simp [Operation.WithoutRecords]) rfl
  refine ⟨?_, ?_, ?_⟩
  · have hset : twinSearch.set family.catalog "name_eq" (.scalar " ") = (_, .ok ()) :=
      Change.eq_of_isOk (by decide +kernel)
    have htwo : (twinSearch.base.valuesOf "name_eq")[1]? = some (.scalar "Bert") := by decide +kernel
    obtain ⟨-, hafter, -⟩ := blank_takes_out_first family.catalog twinSearch _ "name_eq" (.scalar " ") (by decide)
    exact ⟨_, hset, (hafter hset).1.trans (by rw [htwo])⟩
  · have hset : singleSearch.set family.catalog "name_eq" (.scalar "") = (_, .ok ()) :=
      Change.eq_of_isOk (by decide +kernel)
    obtain ⟨-, hafter, -⟩ := blank_takes_out_first family.catalog singleSearch _ "name_eq" (.scalar "") (by decide)
    exact ⟨_, hset, (hafter hset).2.1.2 (hcount "name_eq").1⟩
  · have hset : singleSearch.orSet family.catalog 0 "name_eq" (.list []) = (_, .ok ()) :=
      Change.eq_of_isOk (by decide +kernel)
    obtain ⟨-, -, -, hafter, -⟩ :=
      blank_takes_out_first family.catalog singleSearch _ "name_eq" (.list []) (by decide)
    obtain ⟨group, hgroup⟩ : ∃ group, singleSearch.ors[0]? = some group :=
      Option.isSome_iff_exists.1 (by decide +kernel)
    have hone := (hafter 0 group (by rw [hgroup]; rfl) hset).2.1
    exact ⟨_, hset, hone.2 ((hcount "name_eq").2 group (List.mem_of_getElem? hgroup)), by decide +kernel⟩

/-- A key may have a value after a blank one has been written under it. -/
theorem not_get_blank : ¬ ∀ (s : Schema) (q after : Search) (key : String) (value : Value),
    Reachable s.catalog q → value.isBlank = true → q.set s.catalog key value = (after, .ok ()) →
      after.get s.catalog key = .ok none ∧ ∀ cond ∈ after.base.conditions, cond.key ≠ key := by
  intro h
  have hset : twinSearch.set family.catalog "name_eq" (.scalar "") = (_, .ok ()) :=
    Change.eq_of_isOk (by decide +kernel)
  have hnone := (h family twinSearch _ "name_eq" (.scalar "") (Reachable.of_isSome _) (by decide) hset).1
  have hsome : ((twinSearch.set family.catalog "name_eq" (.scalar "")).1.get family.catalog "name_eq").toOption =
      some (some (.scalar "Bert")) := by decide +kernel
  rw [hnone] at hsome
  cases hsome

end Search

end Criteria
