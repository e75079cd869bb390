import Criteria.Proofs.Params.Groups
import Criteria.Proofs.Searches.Steps

/-!
# Groups with members

* `Junction.Populated` — every group at any depth has members; what upserts, removals and contributions keep.
* `Reader.populated_of_groups` — groups that are read have members, as have all groups in them.
* `Search.Populated`, `Search.emptied` — the same inside the base and the or-groups of a search, and how many or-groups
  have no members themselves.
* `Search.populated_performAll`, `emptied_performAll` — operations keep the one, and each adds at most one to the other:
  a blank value that takes the last condition out of an or-group.
-/

namespace Criteria

namespace Junction

variable {i j k : Junction} {groups : List Junction} {m : Combinator}

/-- Every group at any depth has members. -/
def Populated (j : Junction) : Prop := ∀ group, Relation.TransGen HasGroup j group → group ≠ []

theorem populated_iff : j.Populated ↔ ∀ group, j.HasGroup group → group ≠ [] ∧ group.Populated := by
  constructor
  · intro h group hgroup
    exact ⟨h group (.single hgroup), fun inner hinner => h inner (.head hgroup hinner)⟩
  · intro h inner hinner
    obtain ⟨group, hgroup, hrest⟩ := Relation.TransGen.head'_iff.1 hinner
    rcases Relation.reflTransGen_iff_eq_or_transGen.1 hrest with rfl | hrest
    · exact (h _ hgroup).1
    · exact (h group hgroup).2 inner hrest

/-- Groups that come from populated junctions make a populated one. -/
theorem Populated.union (hj : j.Populated) (hk : k.Populated)
    (h : ∀ group, i.HasGroup group → j.HasGroup group ∨ k.HasGroup group) : i.Populated := by
  rw [populated_iff] at hj hk ⊢
  intro group hgroup
  exact (h group hgroup).elim (hj group) (hk group)

theorem Populated.mono (hj : j.Populated) (h : ∀ group, k.HasGroup group → j.HasGroup group) : k.Populated :=
  hj.union hj fun group hgroup => .inl (h group hgroup)

theorem populated_append : Populated (j ++ k) ↔ j.Populated ∧ k.Populated := by
  constructor
  · intro h
    exact ⟨h.mono fun group hgroup => hasGroup_append.2 (.inl hgroup),
      h.mono fun group hgroup => hasGroup_append.2 (.inr hgroup)⟩
  · rintro ⟨hj, hk⟩
    exact hj.union hk fun group => hasGroup_append.1

theorem populated_conditions (found : List Condition) : Populated (found.map Node.condition) := by
  rw [populated_iff]
  rintro group ⟨m, hgroup⟩
  obtain ⟨cond, -, heq⟩ := List.mem_map.1 hgroup
  cases heq

theorem populated_nil : Populated [] := populated_conditions []

theorem populated_groups : Populated (groups.map (Node.group m)) ↔
    ∀ group ∈ groups, group ≠ [] ∧ group.Populated := by
  simp only [populated_iff (j := groups.map (Node.group m)), hasGroup_groups]

theorem populated_foldl {xs : List Contribution} (hj : j.Populated) (hxs : ∀ x ∈ xs, Populated x.groups) :
    (xs.foldl add j).Populated := by
  rw [populated_iff]
  intro group hgroup
  rcases hasGroup_foldl.1 hgroup with hgroup | ⟨x, hx, hgroup⟩
  · exact populated_iff.1 hj group hgroup
  · exact populated_iff.1 (hxs x hx) group hgroup

theorem upsert_ne_nil (j : Junction) (new : Condition) : j.upsert new ≠ [] := by
  cases j with
  | nil => exact List.cons_ne_nil _ _
  | cons node rest =>
    cases node with
    | group m members => exact List.cons_ne_nil _ _
    | condition old =>
      rw [upsert]
      split <;> exact List.cons_ne_nil _ _

end Junction

/-! ## Reading -/

namespace Reader

mutual

theorem populated_of_groups {r : Reader} {value : Json} {groups : List Junction} (h : r.groups value = .ok groups) :
    ∀ group ∈ groups, group ≠ [] ∧ group.Populated := by
  intro group hgroup
  obtain ⟨maps, junctions, hmaps, hjunctions, rfl⟩ := groups_eq_ok.1 h
  obtain ⟨hmem, hne⟩ := List.mem_filter.1 hgroup
  obtain ⟨m, hm, hmade⟩ := exists_of_mem_collect hjunctions hmem
  have := sizeOf_lt_of_mem_mappings hmaps hm
  exact ⟨by simpa using hne, populated_of_junction hmade⟩
termination_by 2 * sizeOf value

theorem populated_of_junction {r : Reader} {fields : Keyed Json} {j : Junction} (h : r.junction fields = .ok j) :
    j.Populated := by
  obtain ⟨xs, hxs, rfl⟩ := junction_eq_ok.1 h
  apply Junction.populated_foldl (Junction.populated_nil)
  intro x hx
  obtain ⟨⟨key, value⟩, hfield, hmade⟩ := exists_of_mem_collect hxs hx
  have := sizeOf_lt_of_mem hfield
  exact populated_of_contribution hmade
termination_by 2 * sizeOf fields

theorem populated_of_contribution {r : Reader} {key : String} {value : Json} {x : Contribution}
    (h : r.contribution key value = .ok x) : Junction.Populated x.groups := by
  rcases contribution_eq_ok h with ⟨-, groups, hgroups, rfl⟩ | ⟨-, groups, hgroups, rfl⟩ | ⟨-, found, -, rfl⟩ |
    ⟨-, found, -, rfl⟩
  · exact Junction.populated_groups.2 (populated_of_groups hgroups)
  · exact Junction.populated_groups.2 (populated_of_groups hgroups)
  · exact Junction.populated_conditions found
  · exact Junction.populated_nil
termination_by 2 * sizeOf value + 1

end

end Reader

/-! ## Searches -/

namespace Search

variable {c : Catalog} {q after : Search} {op : Operation} {ops : List Operation}

/-- Every group inside the base and inside the or-groups has members; the or-groups themselves need not have any. -/
structure Populated (q : Search) : Prop where
  base : q.base.Populated
  ors : ∀ group ∈ q.ors, group.Populated

/-- How many or-groups have no members. -/
def emptied (q : Search) : Nat := q.ors.countP List.isEmpty

/-- Whether an operation may take out the last condition of an or-group. -/
def Operation.blanksGroup : Operation → Bool
  | .orSet _ _ value => value.isBlank
  | _ => false

theorem emptied_eq_zero : q.emptied = 0 ↔ ∀ group ∈ q.ors, group ≠ [] := by
  simp [emptied, List.countP_eq_zero]

/-- All groups of the search that parameters write have members, the or-groups too. -/
theorem populated_nodes_of_addEntries {params : Keyed Json} (hq : Junction.Populated q.nodes)
    (h : addEntries c q params = .ok after) : Junction.Populated after.nodes := by
  induction params generalizing q with
  | nil =>
    cases h
    exact hq
  | cons entry rest ih =>
    rcases addEntries_cons_eq_ok h with ⟨-, sorts, hrest⟩ | ⟨-, x, hx, hrest⟩
    · exact ih (q := { q with sorts := sorts }) hq hrest
    · exact ih (hq.union (Reader.populated_of_contribution hx) fun group => hasGroup_nodes_add.1) hrest

theorem populated_of_build {root : String} {settings : Settings} {params : Keyed Json}
    (h : build c root settings params = .ok q) : q.Populated ∧ q.emptied = 0 := by
  unfold build at h
  split at h
  · cases h
  · obtain ⟨hbase, hors⟩ := Junction.populated_append.1
      (populated_nodes_of_addEntries (q := ⟨root, settings, [], [], []⟩) (Junction.populated_nil) h)
    rw [Junction.populated_groups] at hors
    exact ⟨⟨hbase, fun group hgroup => (hors group hgroup).2⟩,
      emptied_eq_zero.2 fun group hgroup => (hors group hgroup).1⟩

theorem populated_putCondition {r : Reader} {j k : Junction} {key : String} {value : Value} (hj : j.Populated)
    (h : putCondition r j key value = .ok k) : k.Populated := by
  unfold putCondition at h
  split at h <;> cases h
  · exact hj.mono fun group => Junction.hasGroup_upsert.1
  · exact hj.mono fun group => Junction.hasGroup_remove.1

theorem isBlank_of_putCondition {r : Reader} {j : Junction} {key : String} {value : Value}
    (h : putCondition r j key value = .ok []) : value.isBlank = true := by
  by_contra hvalue
  obtain ⟨cond, -, hnil⟩ := (putCondition_eq_ok (by simpa using hvalue)).1 h
  exact Junction.upsert_ne_nil j cond hnil.symm

theorem populated_step (h : Step c q op after) (hq : q.Populated) : after.Populated := by
  cases h with
  | keeps | sorts => exact ⟨hq.base, hq.ors⟩
  | set hput => exact ⟨populated_putCondition hq.base hput, hq.ors⟩
  | orSet hgroup hput =>
    refine ⟨hq.base, fun group hmem => ?_⟩
    rcases List.mem_or_eq_of_mem_set hmem with hmem | rfl
    · exact hq.ors group hmem
    · exact populated_putCondition (hq.ors _ (List.mem_of_getElem? hgroup)) hput
  | orAppend hput hne =>
    refine ⟨hq.base, List.forall_mem_append.2 ⟨hq.ors, ?_⟩⟩
    exact List.forall_mem_singleton.2 (populated_putCondition (Junction.populated_nil) hput)
  | pushOrs hgroups =>
    refine ⟨hq.base, List.forall_mem_append.2 ⟨hq.ors, ?_⟩⟩
    exact fun group hgroup => (Reader.populated_of_groups hgroups group hgroup).2
  | setOrs hgroups => exact ⟨hq.base, fun group hgroup => (Reader.populated_of_groups hgroups group hgroup).2⟩
  | clears => exact ⟨hq.base, nofun⟩
  | reverses => exact ⟨hq.base, fun group hgroup => hq.ors group (List.mem_reverse.1 hgroup)⟩

theorem countP_isEmpty_of_groups {r : Reader} {value : Json} {groups : List Junction}
    (h : r.groups value = .ok groups) : groups.countP List.isEmpty = 0 := by
  simp only [List.countP_eq_zero, List.isEmpty_iff]
  exact fun group hgroup => (Reader.populated_of_groups h group hgroup).1

theorem emptied_step (h : Step c q op after) : after.emptied ≤ q.emptied + if op.blanksGroup then 1 else 0 := by
  unfold emptied
  cases h with
  | keeps | sorts | set _ => exact Nat.le_add_right _ _
  | @orSet index key value group new hgroup hput =>
    rw [List.countP_set (List.getElem?_eq_some_iff.1 hgroup).1]
    cases new with
    | cons node rest =>
      simp only [List.isEmpty_cons, Bool.false_eq_true, if_false]
      omega
    | nil =>
      -- Only a removal leaves nothing, and what removes is a blank value.
      simp [Operation.blanksGroup, isBlank_of_putCondition hput]
  | orAppend hput hne =>
    simp [List.isEmpty_eq_false_iff.2 hne]
  | pushOrs hgroups => simp [countP_isEmpty_of_groups hgroups]
  | setOrs hgroups => simp [countP_isEmpty_of_groups hgroups]
  | clears => simp
  | reverses => simp

theorem populated_performAll (hq : q.Populated) (ops : List Operation) : (q.performAll c ops).Populated :=
  performAll_induction hq fun q op _ hq => populated_step (step_perform c q op) hq

theorem emptied_performAll (q : Search) (ops : List Operation) :
    (q.performAll c ops).emptied ≤ q.emptied + ops.countP Operation.blanksGroup := by
  induction ops generalizing q with
  | nil => exact Nat.le_add_right _ _
  | cons op rest ih =>
    have hstep := emptied_step (step_perform c q op)
    have hrest : ((q.perform c op).performAll c rest).emptied ≤ _ := ih (q.perform c op)
    rw [List.countP_cons]
    show ((q.perform c op).performAll c rest).emptied ≤ _
    omega

end Search

end Criteria
