import Criteria.Proofs.Params.Conditions
import Criteria.Proofs.Searches.Compiles
import Mathlib.Logic.Relation

/-!
# The groups that entries write

* `Settings.HasGroup`, `Junction.HasGroup` — a group of a mapping, and one of a junction; either nests to any depth.
* `Reader.AllFaultless` — no entry at any depth has a fault of its own; a value makes groups just if that is so of its
  mappings (`groups_isOk_iff`).
* `Search.exists_of_transGen` — every group of parameters has been read, and stands in the search unless it is empty.
* `Search.keeps_build` — the base of the search and all its groups keep the conditions that their entries ask for.
* `Search.not_length_conditions` — all but some: a key takes the place of a record that stands before it.
-/

namespace Criteria

/-- Whether the second mapping is one of the groups that the entries of the first write. -/
def Settings.HasGroup (s : Settings) (fields group : Keyed Json) : Prop :=
  ∃ key value maps, (key, value) ∈ fields ∧ (key = s.orGroupKey ∨ key = s.andGroupKey) ∧ mappings value = .ok maps ∧
    group ∈ maps

/-- The groups that an entry adds. -/
def Contribution.groups : Contribution → List Node
  | .orGroups groups => groups.map (Node.group .or)
  | .nodes members => members
  | .condition _ => []

/-- Whether the second junction is a group among the members of the first. -/
def Junction.HasGroup (j group : Junction) : Prop := ∃ m, Node.group m group ∈ j

namespace Junction

variable {j k group : Junction} {x : Contribution}

theorem hasGroup_append : HasGroup (j ++ k) group ↔ j.HasGroup group ∨ k.HasGroup group := by
  simp [HasGroup, exists_or]

theorem hasGroup_groups {m : Combinator} {groups : List Junction} :
    HasGroup (groups.map (Node.group m)) group ↔ group ∈ groups := by
  simp [HasGroup]

/-- Conditions come and go between the groups. -/
theorem hasGroup_upsert {new : Condition} : (j.upsert new).HasGroup group ↔ j.HasGroup group := by
  unfold HasGroup
  apply exists_congr
  intro m
  induction j with
  | nil => simp [upsert]
  | cons node rest ih =>
    cases node with
    | group _ _ => simp [upsert, ih]
    | condition old =>
      rw [upsert]
      split <;> simp [ih]

theorem hasGroup_remove {key : String} : (j.remove key).HasGroup group ↔ j.HasGroup group := by
  unfold HasGroup
  apply exists_congr
  intro m
  induction j with
  | nil => rfl
  | cons node rest ih =>
    cases node with
    | group _ _ => simp [remove, ih]
    | condition old =>
      rw [remove]
      split <;> simp [ih]

theorem hasGroup_add : (j.add x).HasGroup group ↔ j.HasGroup group ∨ HasGroup x.groups group := by
  cases x with
  | orGroups groups => exact hasGroup_append
  | nodes members => exact hasGroup_append
  | condition found =>
    have hnone : ¬ HasGroup [] group := by simp [HasGroup]
    cases found with
    | none => simp [add, Contribution.groups, hnone]
    | some new => simp [add, Contribution.groups, hnone, hasGroup_upsert]

theorem hasGroup_foldl {xs : List Contribution} :
    (xs.foldl add j).HasGroup group ↔ j.HasGroup group ∨ ∃ x ∈ xs, HasGroup x.groups group := by
  induction xs generalizing j with
  | nil => simp
  | cons first rest ih =>
    rw [List.foldl_cons, ih, hasGroup_add]
    simp [or_assoc]

end Junction

namespace Reader

variable {r : Reader} {fields group : Keyed Json} {j : Junction} {key : String} {value : Json} {x : Contribution}

theorem exists_of_groups {groups : List Junction} {maps : List (Keyed Json)} (hmaps : mappings value = .ok maps)
    (hgroup : group ∈ maps) (h : r.groups value = .ok groups) :
    ∃ k, r.junction group = .ok k ∧ (k = [] ∨ k ∈ groups) := by
  obtain ⟨maps', junctions, hmaps', hjunctions, rfl⟩ := groups_eq_ok.1 h
  rw [hmaps] at hmaps'
  cases hmaps'
  obtain ⟨k, hmem, hk⟩ := exists_mem_collect hjunctions hgroup
  refine ⟨k, hk, ?_⟩
  cases k with
  | nil => exact .inl rfl
  | cons node rest => exact .inr (List.mem_filter.2 ⟨hmem, rfl⟩)

theorem exists_of_contribution (hkey : key = r.settings.orGroupKey ∨ key = r.settings.andGroupKey)
    {maps : List (Keyed Json)} (hmaps : mappings value = .ok maps) (hgroup : group ∈ maps)
    (h : r.contribution key value = .ok x) :
    ∃ k, r.junction group = .ok k ∧ (k = [] ∨ Junction.HasGroup x.groups k) := by
  have hrole : r.settings.role key = .orGroups ∨ r.settings.role key = .andGroups := by
    unfold Settings.role
    rcases hkey with rfl | rfl
    · exact .inl (if_pos rfl)
    · rw [if_pos rfl]
      split
      · exact .inl rfl
      · exact .inr rfl
  rcases contribution_eq_ok h with ⟨-, groups, hgroups, rfl⟩ | ⟨-, groups, hgroups, rfl⟩ | ⟨hother, -⟩ | ⟨hother, -⟩
  · obtain ⟨k, hk, hmem⟩ := exists_of_groups hmaps hgroup hgroups
    exact ⟨k, hk, hmem.imp_right fun hmem => ⟨.or, List.mem_map_of_mem hmem⟩⟩
  · obtain ⟨k, hk, hmem⟩ := exists_of_groups hmaps hgroup hgroups
    exact ⟨k, hk, hmem.imp_right fun hmem => ⟨.and, List.mem_map_of_mem hmem⟩⟩
  · simp [hother] at hrole
  · simp [hother] at hrole

/-- The junction of a mapping has that of each of its groups, unless that is empty. -/
theorem exists_of_junction (hgroup : r.settings.HasGroup fields group) (h : r.junction fields = .ok j) :
    ∃ k, r.junction group = .ok k ∧ (k = [] ∨ j.HasGroup k) := by
  obtain ⟨key, value, maps, hfield, hkey, hmaps, hgroup⟩ := hgroup
  obtain ⟨xs, hxs, rfl⟩ := junction_eq_ok.1 h
  obtain ⟨x, hmem, hx⟩ := exists_mem_collect hxs hfield
  obtain ⟨k, hk, hadded⟩ := exists_of_contribution hkey hmaps hgroup hx
  exact ⟨k, hk, hadded.imp_right fun hadded => Junction.hasGroup_foldl.2 (.inr ⟨x, hmem, hadded⟩)⟩

/-! ## Faults -/

/-- Whether an entry can be read, whatever its groups hold. -/
def isFaultless (r : Reader) (key : String) (value : Json) : Bool :=
  match r.settings.role key with
  | .orGroups | .andGroups => (mappings value).isOk
  | .records => (r.records value).isOk
  | .sorts => false
  | .condition => (r.namedCondition key value).isOk

/-- No entry has a fault, nor has one of a group at any depth. -/
def AllFaultless (r : Reader) (fields : Keyed Json) : Prop :=
  ∀ inner : Keyed Json, Relation.ReflTransGen r.settings.HasGroup fields inner →
    ∀ key value, (key, value) ∈ inner → r.isFaultless key value = true

theorem isFaultless_of_contribution (h : r.contribution key value = .ok x) : r.isFaultless key value = true := by
  have hmappings {groups : List Junction} (h : r.groups value = .ok groups) : (mappings value).isOk = true := by
    obtain ⟨maps, -, hmaps, -⟩ := groups_eq_ok.1 h
    rw [hmaps]
    rfl
  unfold isFaultless
  rcases contribution_eq_ok h with ⟨hrole, groups, h, -⟩ | ⟨hrole, groups, h, -⟩ | ⟨hrole, found, h, -⟩ |
    ⟨hrole, found, h, -⟩ <;> rw [hrole]
  · exact hmappings h
  · exact hmappings h
  · show (r.records value).isOk = true
    rw [h]
    rfl
  · show (r.namedCondition key value).isOk = true
    rw [h]
    rfl

theorem exists_of_reflTransGen (h : r.junction fields = .ok j)
    (hgroup : Relation.ReflTransGen r.settings.HasGroup fields group) : ∃ k, r.junction group = .ok k := by
  induction hgroup with
  | refl => exact ⟨j, h⟩
  | tail _ hinner ih =>
    obtain ⟨i, hi⟩ := ih
    obtain ⟨k, hk, -⟩ := exists_of_junction hinner hi
    exact ⟨k, hk⟩

theorem allFaultless_of_junction (h : r.junction fields = .ok j) : r.AllFaultless fields := by
  intro inner hinner key value hfield
  obtain ⟨k, hk⟩ := exists_of_reflTransGen h hinner
  obtain ⟨xs, hxs, -⟩ := junction_eq_ok.1 hk
  obtain ⟨x, -, hx⟩ := exists_mem_collect hxs hfield
  exact isFaultless_of_contribution hx

theorem groups_isOk {maps : List (Keyed Json)} (hmaps : mappings value = .ok maps)
    (h : ∀ m ∈ maps, ∃ k, r.junction m = .ok k) : ∃ groups, r.groups value = .ok groups := by
  obtain ⟨junctions, hjunctions⟩ := collect_isOk h
  exact ⟨_, groups_eq_ok.2 ⟨maps, junctions, hmaps, hjunctions, rfl⟩⟩

theorem contribution_isOk (h : r.isFaultless key value = true)
    (hgroups : ∀ maps, mappings value = .ok maps → (key = r.settings.orGroupKey ∨ key = r.settings.andGroupKey) →
      ∀ m ∈ maps, ∃ k, r.junction m = .ok k) : ∃ x, r.contribution key value = .ok x := by
  have hread (hok : (mappings value).isOk = true) (hkey : key = r.settings.orGroupKey ∨ key = r.settings.andGroupKey) :
      ∃ groups, r.groups value = .ok groups := by
    cases hmaps : mappings value with
    | error e =>
      rw [hmaps] at hok
      cases hok
    | ok maps => exact groups_isOk hmaps (hgroups maps hmaps hkey)
  rw [contribution]
  unfold isFaultless at h
  cases hrole : r.settings.role key <;> rw [hrole] at h <;> dsimp only at h ⊢
  case orGroups =>
    obtain ⟨groups, hgroups⟩ := hread h (.inl (Settings.eq_of_role_orGroups hrole))
    rw [hgroups]
    exact ⟨_, rfl⟩
  case andGroups =>
    obtain ⟨groups, hgroups⟩ := hread h (.inr (Settings.eq_of_role_andGroups hrole))
    rw [hgroups]
    exact ⟨_, rfl⟩
  case records =>
    cases hfound : r.records value with
    | error e =>
      rw [hfound] at h
      cases h
    | ok found => exact ⟨_, rfl⟩
  case sorts => cases h
  case condition =>
    cases hfound : r.namedCondition key value with
    | error e =>
      rw [hfound] at h
      cases h
    | ok found => exact ⟨_, rfl⟩

/-- A mapping makes a junction if there is no fault at any depth. -/
theorem junction_isOk {r : Reader} {fields : Keyed Json} (h : r.AllFaultless fields) :
    ∃ j, r.junction fields = .ok j := by
  have hentries : ∀ field ∈ fields, ∃ x, r.contribution field.1 field.2 = .ok x := by
    rintro ⟨key, value⟩ hfield
    apply contribution_isOk (h fields .refl key value hfield)
    intro maps hmaps hkey m hm
    have hstep : r.settings.HasGroup fields m := ⟨key, value, maps, hfield, hkey, hmaps, hm⟩
    have hsize : sizeOf m < sizeOf fields := by
      have hvalue := sizeOf_lt_of_mem_mappings hmaps hm
      have hfields := sizeOf_lt_of_mem hfield
      omega
    exact junction_isOk fun inner hinner => h inner (.head hstep hinner)
  obtain ⟨xs, hxs⟩ := collect_isOk hentries
  exact ⟨_, junction_eq_ok.2 ⟨xs, hxs, rfl⟩⟩
termination_by sizeOf fields

/-- A value makes groups just if it holds mappings without a fault at any depth. -/
theorem groups_isOk_iff : (∃ groups, r.groups value = .ok groups) ↔
    ∃ maps, mappings value = .ok maps ∧ ∀ m ∈ maps, r.AllFaultless m := by
  constructor
  · rintro ⟨groups, h⟩
    obtain ⟨maps, junctions, hmaps, hjunctions, -⟩ := groups_eq_ok.1 h
    refine ⟨maps, hmaps, ?_⟩
    intro m hm
    obtain ⟨j, hj⟩ := isOk_of_collect hjunctions hm
    exact allFaultless_of_junction hj
  · rintro ⟨maps, hmaps, hfaultless⟩
    exact groups_isOk hmaps fun m hm => junction_isOk (hfaultless m hm)

end Reader

namespace Search

variable {c : Catalog} {q q' : Search} {params group : Keyed Json} {k : Junction}

theorem hasGroup_nodes : Junction.HasGroup q.nodes k ↔ q.base.HasGroup k ∨ k ∈ q.ors := by
  rw [nodes, Junction.hasGroup_append, Junction.hasGroup_groups]

theorem hasGroup_nodes_add {x : Contribution} :
    Junction.HasGroup (q.add x).nodes k ↔ Junction.HasGroup q.nodes k ∨ Junction.HasGroup x.groups k := by
  rw [hasGroup_nodes, hasGroup_nodes]
  cases x with
  | orGroups groups => simp [add, Contribution.groups, Junction.hasGroup_groups, or_assoc]
  | nodes _ | condition _ =>
    rw [add, Junction.hasGroup_add, or_right_comm]
    intro groups h
    cases h

theorem hasGroup_addEntries (h : addEntries c q params = .ok q') (hk : Junction.HasGroup q.nodes k) :
    Junction.HasGroup q'.nodes k := by
  induction params generalizing q with
  | nil =>
    cases h
    exact hk
  | cons entry rest ih =>
    rcases addEntries_cons_eq_ok h with ⟨-, sorts, hrest⟩ | ⟨-, x, -, hrest⟩
    · exact ih hrest hk
    · exact ih hrest (hasGroup_nodes_add.2 (.inl hk))

theorem reads_of_addEntries (hkeys : q.settings.reservedKeys.Nodup) (h : addEntries c q params = .ok q') :
    (q.reader c).Reads params q.base q'.base := by
  induction params generalizing q with
  | nil =>
    cases h
    exact .nil
  | cons entry rest ih =>
    obtain ⟨key, value⟩ := entry
    have hnothing (hwrites : (q.reader c).Writes (key, value) (.nodes []))
        (hrest : (q.reader c).Reads rest q.base q'.base) :
        (q.reader c).Reads ((key, value) :: rest) q.base q'.base := by
      refine .cons hwrites ?_
      show (q.reader c).Reads rest (q.base ++ []) q'.base
      rwa [List.append_nil]
    rcases addEntries_cons_eq_ok h with ⟨rfl, sorts, hrest⟩ | ⟨-, x, hx, hrest⟩
    · refine hnothing (.other ?_ ?_ rfl) (ih (q := { q with sorts := sorts }) hkeys hrest)
      · show q.settings.isReserved q.settings.sortKey = true
        simp [Settings.isReserved]
      · exact (Settings.ne_of_nodup_reservedKeys hkeys).2.2.2
    · have hreads := ih (q := q.add x) (by rwa [settings_add]) hrest
      rw [reader_add] at hreads
      rcases Reader.writes_of_contribution hkeys hx with ⟨groups, rfl, hwrites⟩ | hwrites
      · exact hnothing (hwrites [] rfl) hreads
      · refine .cons hwrites ?_
        have hbase : (q.add x).base = q.base.add x := by cases hwrites <;> rfl
        rwa [← hbase]

/-- A search has the junction of each group of its parameters, unless that is empty. -/
theorem exists_of_addEntries (hkeys : q.settings.reservedKeys.Nodup) (h : addEntries c q params = .ok q')
    (hgroup : q.settings.HasGroup params group) :
    ∃ k, (q.reader c).junction group = .ok k ∧ (k = [] ∨ Junction.HasGroup q'.nodes k) := by
  obtain ⟨key, value, maps, hfield, hkey, hmaps, hgroup⟩ := hgroup
  induction params generalizing q with
  | nil => cases hfield
  | cons entry rest ih =>
    obtain ⟨name, first⟩ := entry
    rcases addEntries_cons_eq_ok h with ⟨hsort, sorts, hrest⟩ | ⟨-, x, hx, hrest⟩
    · rcases List.mem_cons.1 hfield with hfield | hfield
      · cases hfield
        obtain ⟨-, hor, hand, -⟩ := Settings.ne_of_nodup_reservedKeys hkeys
        rcases hkey with hkey | hkey
        · exact absurd (hsort.symm.trans hkey) hor
        · exact absurd (hsort.symm.trans hkey) hand
      · exact ih (q := { q with sorts := sorts }) hkeys hrest hfield hkey
    · rcases List.mem_cons.1 hfield with hfield | hfield
      · cases hfield
        obtain ⟨k, hk, hadded⟩ := Reader.exists_of_contribution hkey hmaps hgroup hx
        refine ⟨k, hk, hadded.imp_right fun hadded => ?_⟩
        exact hasGroup_addEntries hrest (hasGroup_nodes_add.2 (.inr hadded))
      · have hread := ih (q := q.add x) (by rwa [settings_add]) hrest hfield (by rwa [settings_add])
        rwa [reader_add] at hread

/-- Every group at any depth has been read, and stands in the search unless it is empty. -/
theorem exists_of_transGen (hkeys : q.settings.reservedKeys.Nodup) (h : addEntries c q params = .ok q')
    (hgroup : Relation.TransGen q.settings.HasGroup params group) :
    ∃ k, (q.reader c).junction group = .ok k ∧ (k = [] ∨ Relation.TransGen Junction.HasGroup q'.nodes k) := by
  induction hgroup with
  | single hgroup =>
    obtain ⟨k, hk, hadded⟩ := exists_of_addEntries hkeys h hgroup
    exact ⟨k, hk, hadded.imp_right .single⟩
  | tail _ hinner ih =>
    obtain ⟨j, hj, hadded⟩ := ih
    obtain ⟨k, hk, hmem⟩ := Reader.exists_of_junction hinner hj
    refine ⟨k, hk, ?_⟩
    rcases hmem with rfl | hmem
    · exact .inl rfl
    · rcases hadded with rfl | hadded
      · obtain ⟨m, hmem⟩ := hmem
        cases hmem
      · exact .inr (hadded.tail hmem)

/-- The base of a search that parameters write, and each group in it at any depth, has a condition for every key with a
filled value and for every full record, but for the conditions of records whose place such a key takes. -/
theorem keeps_build {r : Reader} (h : build r.catalog r.root r.settings params = .ok q)
    (hkeys : r.settings.reservedKeys.Nodup) (hr : r.settings.ignoreUnknown = false) (hnames : params.names.Nodup) :
    r.Keeps params q.base ∧
      ∀ group : Keyed Json, Relation.TransGen r.settings.HasGroup params group → group.names.Nodup →
        ∃ k, r.junction group = .ok k ∧ (k = [] ∨ Relation.TransGen Junction.HasGroup q.nodes k) ∧ r.Keeps group k := by
  unfold build at h
  split at h
  · cases h
  · constructor
    · exact (reads_of_addEntries hkeys h).keeps hr hnames
    · intro group hgroup hnodup
      obtain ⟨k, hk, hadded⟩ := exists_of_transGen hkeys h hgroup
      exact ⟨k, hk, hadded, (Reader.reads_of_junction hkeys hk).keeps hr hnodup⟩

/-! ## A record in the place of a key, and the other way around -/

/-- What reads searches for the family. -/
def familyReader : Reader := ⟨family.catalog, "Person", .default⟩

/-- The record of a name. -/
def nameRecord (name : String) : Json := .object [("a", .string "name"), ("p", .string "eq"), ("v", .string name)]

/-- A record of a name and a key of the same name behind it. -/
def overwritten : Keyed Json := [("c", .array [nameRecord "Ernie"]), ("name_eq", .string "Bert")]

/-- The key before the records, one of them without an attribute, and a group with both the other way around. -/
def mixedParams : Keyed Json :=
  [("name_eq", .string "Bert"),
    ("c", .array [nameRecord "Ernie", .object [("a", .string " "), ("p", .string "eq"), ("v", .string "x")],
      .object [("a", .array [.string "salary"]), ("p", .string "gt"), ("v", .number (.integer 5))]]),
    ("g", .object overwritten)]

theorem keeps_build_mixed :
    ∃ q, build family.catalog "Person" .default mixedParams = .ok q ∧ q.base.conditions.length = 3 ∧
      Relation.TransGen Settings.default.HasGroup mixedParams overwritten ∧
      ∃ k, familyReader.junction overwritten = .ok k ∧ Relation.TransGen Junction.HasGroup q.nodes k ∧
        k.conditions.length = 1 := by
  have hgroup : Relation.TransGen Settings.default.HasGroup mixedParams overwritten :=
    .single ⟨"g", .object overwritten, [overwritten], by simp [mixedParams], .inr rfl, rfl, List.mem_singleton_self _⟩
  cases h : build family.catalog "Person" .default mixedParams with
  | error e =>
    have hok : (build family.catalog "Person" .default mixedParams).isOk = true := by decide +kernel
    rw [h] at hok
    cases hok
  | ok q =>
    obtain ⟨hbase, hgroups⟩ := keeps_build (r := familyReader) h (by decide) rfl (by decide)
    obtain ⟨k, hk, hadded, hkeeps⟩ := hgroups overwritten hgroup (by decide)
    have hcount : (familyReader.replacing mixedParams).length = 0 ∧
        (familyReader.settings.namedKeys mixedParams).length = 1 ∧
        (familyReader.settings.fullRecords mixedParams).length = 2 := by decide +kernel
    have hcount' : (familyReader.replacing overwritten).length = 1 ∧
        (familyReader.settings.namedKeys overwritten).length = 1 ∧
        (familyReader.settings.fullRecords overwritten).length = 1 := by decide +kernel
    have hlength := hbase.length
    have hlength' := hkeeps.length
    refine ⟨q, rfl, by omega, hgroup, k, hk, ?_, by omega⟩
    rcases hadded with rfl | hadded
    · have hnone : Junction.conditions [] = [] := rfl
      rw [hnone, List.length_nil] at hlength'
      omega
    · exact hadded

/-- A key behind a record may take its place. -/
theorem not_length_conditions : ¬ ∀ (s : Schema) (root : String) (settings : Settings) (params : Keyed Json)
    (q : Search),
    settings.reservedKeys.Nodup → settings.ignoreUnknown = false → params.names.Nodup →
      build s.catalog root settings params = .ok q →
        q.base.conditions.length = (settings.namedKeys params).length + (settings.fullRecords params).length := by
  intro h
  have hshort : (build family.catalog "Person" .default overwritten).toOption.map (fun q => q.base.conditions.length) =
      some 1 := by decide +kernel
  have hasked : (Settings.default.namedKeys overwritten).length +
      (Settings.default.fullRecords overwritten).length = 2 := by decide +kernel
  cases hbuild : build family.catalog "Person" .default overwritten with
  | error e =>
    rw [hbuild] at hshort
    cases hshort
  | ok q =>
    have hlength := h family "Person" .default overwritten q (by decide) rfl (by decide) hbuild
    rw [hbuild] at hshort
    have hone : q.base.conditions.length = 1 := Option.some.inj hshort
    omega

end Search

end Criteria
