import Criteria.Params.Contribution

/-!
# The conditions of a tree

* `Node.leaves`, `Junction.leaves` — all conditions of a tree at any depth, and what adding, replacing and removing does
  to them.
* `Reader.Makes` — the conditions that a reader makes of a key or of a record; whatever it builds has no others
  (`makes_of_groups`, `makes_of_junction`, `makes_of_contribution`).
-/

namespace Criteria

mutual

/-- The conditions of a node, those of its members among them. -/
def Node.leaves : Node → List Condition
  | .condition cond => [cond]
  | .group _ members => Junction.leaves members

/-- The conditions of nodes in order. -/
def Junction.leaves : List Node → List Condition
  | [] => []
  | node :: rest => node.leaves ++ Junction.leaves rest

end

/-- The conditions that an entry adds. -/
def Contribution.leaves : Contribution → List Condition
  | .orGroups groups => groups.flatMap Junction.leaves
  | .nodes members => Junction.leaves members
  | .condition c => c.toList

namespace Junction

variable {cond : Condition} {j : Junction}

theorem mem_leaves {j : List Node} : cond ∈ leaves j ↔ ∃ node ∈ j, cond ∈ node.leaves := by
  induction j with
  | nil => simp [leaves]
  | cons node rest ih => simp [leaves, ih]

theorem leaves_append (j rest : List Node) : leaves (j ++ rest) = leaves j ++ leaves rest := by
  induction j with
  | nil => rfl
  | cons node j ih => rw [List.cons_append, leaves, leaves, ih, List.append_assoc]

theorem leaves_groups (m : Combinator) (groups : List Junction) :
    leaves (groups.map (Node.group m)) = groups.flatMap leaves := by
  induction groups with
  | nil => rfl
  | cons group groups ih => rw [List.map_cons, leaves, Node.leaves, ih, List.flatMap_cons]

theorem leaves_conditions (conditions : List Condition) : leaves (conditions.map Node.condition) = conditions := by
  induction conditions with
  | nil => rfl
  | cons cond conditions ih => rw [List.map_cons, leaves, Node.leaves, ih, List.singleton_append]

theorem mem_leaves_upsert {new : Condition} (h : cond ∈ leaves (j.upsert new)) : cond = new ∨ cond ∈ leaves j := by
  induction j with
  | nil => simpa [upsert, leaves, Node.leaves] using h
  | cons node rest ih =>
    have hrest (h : cond ∈ leaves (upsert new rest)) : cond = new ∨ cond ∈ leaves (node :: rest) := by
      rw [leaves, List.mem_append]
      exact (ih h).imp_right .inr
    cases node with
    | group m members =>
      rw [upsert, leaves, List.mem_append] at h
      rcases h with h | h
      · exact .inr (mem_leaves.2 ⟨_, List.mem_cons_self, h⟩)
      · exact hrest h
    | condition old =>
      rw [upsert] at h
      split at h <;> rw [leaves, List.mem_append] at h <;> rcases h with h | h
      · exact .inl (List.mem_singleton.1 h)
      · exact .inr (by rw [leaves, List.mem_append]; exact .inr h)
      · exact .inr (mem_leaves.2 ⟨_, List.mem_cons_self, h⟩)
      · exact hrest h

theorem mem_leaves_remove {key : String} (h : cond ∈ leaves (j.remove key)) : cond ∈ leaves j := by
  induction j with
  | nil => exact h
  | cons node rest ih =>
    rw [leaves, List.mem_append]
    cases node with
    | group m members =>
      rw [remove, leaves, List.mem_append] at h
      exact h.imp_right ih
    | condition old =>
      rw [remove] at h
      split at h
      · exact .inr h
      · rw [leaves, List.mem_append] at h
        exact h.imp_right ih

theorem mem_leaves_add {contribution : Contribution} (h : cond ∈ leaves (j.add contribution)) :
    cond ∈ leaves j ∨ cond ∈ contribution.leaves := by
  unfold add at h
  split at h
  · rwa [leaves_append, leaves_groups, List.mem_append] at h
  · rwa [leaves_append, List.mem_append] at h
  · exact (mem_leaves_upsert h).symm.imp_right fun hnew => List.mem_singleton.2 hnew
  · exact .inl h

theorem mem_leaves_foldl {contributions : List Contribution} (h : cond ∈ leaves (contributions.foldl add j)) :
    cond ∈ leaves j ∨ ∃ contribution ∈ contributions, cond ∈ contribution.leaves := by
  induction contributions generalizing j with
  | nil => exact .inl h
  | cons contribution rest ih =>
    rcases ih h with h | ⟨other, hother, h⟩
    · exact (mem_leaves_add h).imp_right fun h => ⟨contribution, List.mem_cons_self, h⟩
    · exact .inr ⟨other, List.mem_cons_of_mem _ hother, h⟩

end Junction

namespace Reader

variable {r : Reader} {cond : Condition}

/-- The conditions that a reader makes. -/
inductive Makes (r : Reader) : Condition → Prop
  | named {key : String} {value : Value} {cond : Condition} (h : r.named key value = .ok (some cond)) : Makes r cond
  | record {fields : Keyed Json} {cond : Condition} (h : r.record fields = .ok (some cond)) : Makes r cond

/-- Being lenient makes no conditions. -/
theorem eq_of_tolerate {result : Except SearchError (Option Condition)} (h : r.tolerate result = .ok (some cond)) :
    result = .ok (some cond) := by
  unfold tolerate at h
  split at h
  · split at h <;> cases h
  · exact h

theorem makes_of_namedCondition {key : String} {value : Json} (h : r.namedCondition key value = .ok (some cond)) :
    r.Makes cond := by
  unfold namedCondition at h
  split at h
  · cases h
  · cases h
  · exact .named (eq_of_tolerate h)

theorem makes_of_records {value : Json} {conditions : List Condition} (h : r.records value = .ok conditions)
    (hc : cond ∈ conditions) : r.Makes cond := by
  unfold records at h
  split at h
  · cases h
  · split at h
    · cases h
    · rename_i found hfound
      cases h
      obtain ⟨result, hresult, heq⟩ := List.mem_filterMap.1 hc
      obtain ⟨fields, -, hrecord⟩ := exists_of_mem_collect hfound hresult
      rw [id_eq] at heq
      subst heq
      exact .record (eq_of_tolerate hrecord)

mutual

theorem makes_of_groups {r : Reader} {value : Json} {groups : List Junction} (h : r.groups value = .ok groups) :
    ∀ j ∈ groups, ∀ cond ∈ Junction.leaves j, r.Makes cond := by
  intro j hj
  obtain ⟨maps, junctions, hmaps, hjunctions, rfl⟩ := groups_eq_ok.1 h
  obtain ⟨m, hm, hmade⟩ := exists_of_mem_collect hjunctions ((List.mem_filter.1 hj).1)
  have := sizeOf_lt_of_mem_mappings hmaps hm
  exact makes_of_junction hmade
termination_by 2 * sizeOf value

theorem makes_of_junction {r : Reader} {fields : Keyed Json} {j : Junction} (h : r.junction fields = .ok j) :
    ∀ cond ∈ Junction.leaves j, r.Makes cond := by
  intro cond hcond
  obtain ⟨contributions, hcontributions, rfl⟩ := junction_eq_ok.1 h
  rcases Junction.mem_leaves_foldl hcond with hcond | ⟨contribution, hmem, hcond⟩
  · cases hcond
  · obtain ⟨⟨key, value⟩, hfield, hmade⟩ := exists_of_mem_collect hcontributions hmem
    have := sizeOf_lt_of_mem hfield
    exact makes_of_contribution hmade cond hcond
termination_by 2 * sizeOf fields

theorem makes_of_contribution {r : Reader} {key : String} {value : Json} {contribution : Contribution}
    (h : r.contribution key value = .ok contribution) : ∀ cond ∈ contribution.leaves, r.Makes cond := by
  intro cond hcond
  rcases contribution_eq_ok h with ⟨-, groups, hgroups, rfl⟩ | ⟨-, groups, hgroups, rfl⟩ | ⟨-, found, hfound, rfl⟩ |
    ⟨-, found, hfound, rfl⟩
  · obtain ⟨j, hj, hcond⟩ := List.mem_flatMap.1 hcond
    exact makes_of_groups hgroups j hj cond hcond
  · rw [Contribution.leaves, Junction.leaves_groups] at hcond
    obtain ⟨j, hj, hcond⟩ := List.mem_flatMap.1 hcond
    exact makes_of_groups hgroups j hj cond hcond
  · rw [Contribution.leaves, Junction.leaves_conditions] at hcond
    exact makes_of_records hfound hcond
  · obtain rfl := Option.mem_toList.1 hcond
    exact makes_of_namedCondition hfound
termination_by 2 * sizeOf value + 1

end

end Reader

end Criteria
