import Criteria.Proofs.Params.Conditions
import Criteria.Proofs.Searches.Emitted
import Criteria.Proofs.Searches.Values

/-!
# Parameters in a group of their own

Or-groups at the root of a search stand in a list apart; in a group they stand among its members.

* `Junction.Splits` — a junction is a base and or-groups, shuffled; adding an entry to a junction and to a search keeps
  that (`splits_add`), and so does a whole mapping (`addEntries_splits`).
* `Settings.wrapped` — parameters as the only member of an and-group; `build_wrapped_eq`: what they build is one group,
  or nothing.
* `Select.Joins`, `joins_select` — the chains that a search without sorts joins are those of its conditions.
* `build_wrapped` — parameters in a group of their own fail, mean and join what they fail, mean and join themselves.
-/

namespace Criteria

open JoinTable

/-! ## Or-groups among other nodes -/

namespace Junction

variable {j base : Junction} {ors : List Junction}

/-- The nodes of a base and or-groups, shuffled: both are in order. -/
inductive Splits : Junction → Junction → List Junction → Prop
  | nil : Splits [] [] []
  | base (node : Node) {j base : Junction} {ors : List Junction} (h : Splits j base ors) :
      Splits (node :: j) (node :: base) ors
  | orGroup (group : Junction) {j base : Junction} {ors : List Junction} (h : Splits j base ors) :
      Splits (.group .or group :: j) base (group :: ors)

theorem Splits.perm (h : Splits j base ors) : j.Perm (base ++ ors.map (Node.group .or)) := by
  induction h with
  | nil => exact .refl _
  | base node _ ih => exact ih.cons node
  | orGroup group _ ih => exact (ih.cons _).trans List.perm_middle.symm

theorem splits_nodes (nodes : Junction) : Splits nodes nodes [] := by
  induction nodes with
  | nil => exact .nil
  | cons node nodes ih => exact .base node ih

theorem splits_groups (groups : List Junction) : Splits (groups.map (Node.group .or)) [] groups := by
  induction groups with
  | nil => exact .nil
  | cons group groups ih => exact .orGroup group ih

theorem Splits.append {k base' : Junction} {ors' : List Junction} (h : Splits j base ors) (h' : Splits k base' ors') :
    Splits (j ++ k) (base ++ base') (ors ++ ors') := by
  induction h with
  | nil => exact h'
  | base node _ ih => exact .base node ih
  | orGroup group _ ih => exact .orGroup group ih

/-- A condition takes the place of its key in the junction just where it does in the base: groups are passed over. -/
theorem Splits.upsert (h : Splits j base ors) (c : Condition) : Splits (j.upsert c) (base.upsert c) ors := by
  induction h with
  | nil => exact .base _ .nil
  | base node h ih =>
    cases node with
    | group m members => exact .base _ ih
    | condition old =>
      rw [Junction.upsert, Junction.upsert]
      split
      · exact .base _ h
      · exact .base _ ih
  | orGroup group _ ih => exact .orGroup group ih

end Junction

/-- Nodes as one group all of whose members have to hold, or nothing. -/
def Junction.grouped (j : Junction) : Junction := if j.isEmpty then [] else [.group .and j]

theorem Junction.holds_grouped (value : Condition → Bool) (j : Junction) :
    Combinator.and.combine (allHold value j.grouped) = Combinator.and.combine (allHold value j) := by
  cases j with
  | nil => rfl
  | cons node rest => exact Combinator.combine_singleton _ _

theorem Junction.leaves_grouped (j : Junction) : leaves j.grouped = leaves j := by
  cases j with
  | nil => rfl
  | cons node rest => exact List.append_nil _

/-- Parameters as the only member of an and-group. -/
def Settings.wrapped (s : Settings) (params : Keyed Json) : Keyed Json := [(s.andGroupKey, .array [.object params])]

namespace Search

variable {c : Catalog} {q q' : Search} {j : Junction} {params : Keyed Json}

theorem splits_add (h : j.Splits q.base q.ors) (x : Contribution) :
    (j.add x).Splits (q.add x).base (q.add x).ors := by
  cases x with
  | orGroups groups =>
    have happend := h.append (Junction.splits_groups groups)
    rwa [List.append_nil] at happend
  | nodes nodes =>
    have happend := h.append (Junction.splits_nodes nodes)
    rwa [List.append_nil] at happend
  | condition found =>
    cases found with
    | none => exact h
    | some cond => exact h.upsert cond

theorem sorts_add (q : Search) (x : Contribution) : (q.add x).sorts = q.sorts := by
  cases x <;> rfl

/-- Entries without sorts are read alike at the root and in a group, and what they add has the same nodes. -/
theorem addEntries_splits (hsort : q.settings.sortKey ∉ params.names) (h : j.Splits q.base q.ors) :
    (∃ e, addEntries c q params = .error e ∧
        collect (fun field => (q.reader c).contribution field.1 field.2) params = .error e) ∨
      ∃ q' xs, addEntries c q params = .ok q' ∧
        collect (fun field => (q.reader c).contribution field.1 field.2) params = .ok xs ∧
        (xs.foldl Junction.add j).Splits q'.base q'.ors ∧ q'.sorts = q.sorts := by
  induction params generalizing q j with
  | nil => exact .inr ⟨q, [], rfl, rfl, h, rfl⟩
  | cons entry rest ih =>
    obtain ⟨key, value⟩ := entry
    obtain ⟨hkey, hrest⟩ := not_or.1 (List.mem_cons.not.1 hsort)
    rw [addEntries, collect, if_neg (Ne.symm hkey)]
    cases (q.reader c).contribution key value with
    | error e => exact .inl ⟨e, rfl, rfl⟩
    | ok x =>
      have hreader := reader_add (c := c) q x
      have hsettings : (q.add x).settings = q.settings := congrArg Reader.settings hreader
      rcases ih (q := q.add x) (by rwa [hsettings]) (splits_add h x) with
        ⟨e, he, hxs⟩ | ⟨q', xs, hq', hxs, hsplits, hsorts⟩
      · rw [hreader] at hxs
        exact .inl ⟨e, he, by simp only [hxs]⟩
      · rw [hreader] at hxs
        exact .inr ⟨q', x :: xs, hq', by simp only [hxs], hsplits, hsorts.trans (sorts_add q x)⟩

/-- A group value with one mapping makes the group of its entries, if they make any. -/
theorem groups_singleton (r : Reader) (fields : Keyed Json) :
    r.groups (.array [.object fields]) = (r.junction fields).map fun j => if j.isEmpty then [] else [j] := by
  have hmaps : mappings (.array [.object fields]) = .ok [fields] := rfl
  rw [Reader.groups_eq, hmaps]
  dsimp only [collect]
  cases r.junction fields with
  | error e => rfl
  | ok j => cases j <;> rfl

/-- What parameters build in a group of their own is one group of the nodes that they build themselves, or nothing. -/
theorem build_wrapped_eq {root : String} {settings : Settings} (hkeys : settings.reservedKeys.Nodup)
    (hsort : settings.sortKey ∉ params.names) :
    (∃ e, build c root settings params = .error e ∧ build c root settings (settings.wrapped params) = .error e) ∨
      ∃ (q : Search) (j : Junction), build c root settings params = .ok q ∧
        build c root settings (settings.wrapped params) = .ok ⟨root, settings, j.grouped, [], []⟩ ∧
        j.Splits q.base q.ors ∧ q.sorts = [] := by
  obtain ⟨-, -, handSort, -⟩ := Settings.ne_of_nodup_reservedKeys hkeys
  have hrole : settings.role settings.andGroupKey = .andGroups := by
    have hne : settings.andGroupKey ≠ settings.orGroupKey := by
      intro heq
      simp [Settings.reservedKeys, heq] at hkeys
    rw [Settings.role, if_neg hne, if_pos rfl]
  unfold build
  cases c.entity? root with
  | none => exact .inl ⟨_, rfl, rfl⟩
  | some entity =>
    -- the wrapped parameters have one entry, and it adds what the junction of the others is
    have hwrapped : addEntries c ⟨root, settings, [], [], []⟩ (settings.wrapped params) =
        ((reader ⟨root, settings, [], [], []⟩ c).junction params).map
          fun j => ⟨root, settings, j.grouped, [], []⟩ := by
      rw [Settings.wrapped, addEntries, if_neg (Ne.symm handSort), Reader.contribution]
      dsimp only [reader]
      rw [hrole]
      dsimp only
      rw [groups_singleton]
      cases Reader.junction ⟨c, root, settings⟩ params with
      | error e => rfl
      | ok j => cases j <;> rfl
    dsimp only
    rw [hwrapped, Reader.junction_eq]
    rcases addEntries_splits (c := c) (q := ⟨root, settings, [], [], []⟩) hsort .nil with
      ⟨e, he, hxs⟩ | ⟨q, xs, hq, hxs, hsplits, hsorts⟩
    · rw [hxs]
      exact .inl ⟨e, he, rfl⟩
    · rw [hxs]
      exact .inr ⟨q, xs.foldl Junction.add [], hq, rfl, hsplits, hsorts⟩

end Search

/-! ## Joined chains -/

/-- The query joins this chain of relationships. -/
def Select.Joins (query : Select) (chain : List String) : Prop := ∃ i, Spells query.joins (some i) chain

/-- The chains of conditions are those of their attributes. -/
theorem mem_stages_iff {leaves : List Condition} {chain : List String} :
    chain ∈ (leafPaths leaves).flatMap AttributePath.stages ↔
      ∃ cond ∈ leaves, ∃ path ∈ cond.attributes, chain ∈ path.stages := by
  simp only [leafPaths, List.mem_flatMap]
  constructor
  · rintro ⟨path, ⟨cond, hcond, hpath⟩, hchain⟩
    exact ⟨cond, hcond, path, hpath, hchain⟩
  · rintro ⟨cond, hcond, path, hpath, hchain⟩
    exact ⟨path, ⟨cond, hcond, hpath⟩, hchain⟩

namespace Search

variable {c : Catalog} {q q' : Search}

/-- A search without sorts has a query, and it joins the chains of its conditions. -/
theorem joins_select {s : Schema} (h : Reachable s.catalog q) (hsorts : q.sorts = []) (options : Options) :
    ∃ query, q.selectWith s.catalog options = .ok query ∧
      ∀ chain, query.Joins chain ↔ ∃ cond ∈ q.leaves, ∃ path ∈ cond.attributes, chain ∈ path.stages := by
  have hc : s.catalog.Named := s.named_catalog
  obtain ⟨root, hroot⟩ := h.root
  have hname : root.name = q.root := hc hroot
  have hsound := h.sound
  unfold selectWith
  rw [hroot]
  dsimp only
  cases he : evaluate s.catalog root q.base q.ors q.sorts options with
  | mk u result =>
    cases result with
    | error e =>
      rw [← hname] at hsound
      have hfails := evaluate_eq_error hc (by rw [hname, hroot]) hsound (congrArg Prod.snd he)
      rw [hsorts] at hfails
      obtain ⟨sort, hsort, -⟩ := hfails
      cases hsort
    | ok clauses =>
      refine ⟨_, rfl, fun chain => ?_⟩
      have hlists := lists_evaluate he
      obtain ⟨v, terms, orders, -, -, rfl⟩ := evaluate_eq_ok he
      have hpaths : evaluatedPaths s.catalog root q.base q.ors q.sorts = leafPaths q.leaves := by
        rw [evaluatedPaths, hsorts, ← leafPaths_append, ← leaves, sortPaths, List.filterMap_nil, List.append_nil]
      rw [Select.addAll_clauses, Select.Joins, ← hlists.mem_iff, List.mem_eraseDups, hpaths, mem_stages_iff]

/-! ## The same search -/

theorem holds_of_perm {nodes nodes' : List Node} (h : nodes.Perm nodes') (value : Condition → Bool) :
    Combinator.and.combine (Junction.allHold value nodes) = Combinator.and.combine (Junction.allHold value nodes') := by
  rw [Combinator.combine_and, Combinator.combine_and, Junction.allHold_eq, Junction.allHold_eq]
  exact (h.map _).all_eq

theorem mem_leaves_of_perm {nodes nodes' : List Node} (h : nodes.Perm nodes') (cond : Condition) :
    cond ∈ Junction.leaves nodes ↔ cond ∈ Junction.leaves nodes' := by
  simp only [Junction.mem_leaves, h.mem_iff]

/-- Parameters without sorts build the same in an and-group of their own: they fail alike, and what they build has the
same truth value and joins the same chains. -/
theorem build_wrapped (s : Schema) (root : String) (settings : Settings) (params : Keyed Json)
    (hkeys : settings.reservedKeys.Nodup) (hsort : settings.sortKey ∉ params.names) :
    (∃ e, build s.catalog root settings params = .error e ∧
        build s.catalog root settings (settings.wrapped params) = .error e) ∨
      ∃ q q', build s.catalog root settings params = .ok q ∧
        build s.catalog root settings (settings.wrapped params) = .ok q' ∧
        (∀ value : Condition → Bool, q.holds value = q'.holds value) ∧
        ∀ options, ∃ query query', q.selectWith s.catalog options = .ok query ∧
          q'.selectWith s.catalog options = .ok query' ∧ ∀ chain, query.Joins chain ↔ query'.Joins chain := by
  rcases build_wrapped_eq hkeys hsort with hfails | ⟨q, j, hq, hq', hsplits, hsorts⟩
  · exact .inl hfails
  · have hreach : Reachable s.catalog q := .build hq
    have hreach' := Reachable.build hq'
    have hperm : j.Perm q.nodes := hsplits.perm
    have hgrouped : nodes ⟨root, settings, j.grouped, [], []⟩ = j.grouped := List.append_nil _
    refine .inr ⟨q, _, hq, hq', ?_, ?_⟩
    · intro value
      rw [holds_eq, holds_eq, hgrouped, Junction.holds_grouped, holds_of_perm hperm]
    · intro options
      obtain ⟨query, hquery, hjoins⟩ := joins_select hreach hsorts options
      obtain ⟨query', hquery', hjoins'⟩ := joins_select hreach' rfl options
      refine ⟨query, query', hquery, hquery', fun chain => ?_⟩
      have hleaves (cond : Condition) : cond ∈ q.leaves ↔ cond ∈ leaves ⟨root, settings, j.grouped, [], []⟩ := by
        rw [← leaves_nodes, ← leaves_nodes, hgrouped, Junction.leaves_grouped, mem_leaves_of_perm hperm]
      simp only [hjoins, hjoins', hleaves]

/-- People named Ernie who earn more than five or have a child named Bert. -/
def orParams : Keyed Json :=
  [("name_eq", .string "Ernie"), ("o", .object [("salary_gt", .string "5"), ("children_name_eq", .string "Bert")])]

/-- The or-group becomes a term of the and-group, and both searches join the children for it. -/
theorem build_wrapped_orParams :
    Settings.default.reservedKeys.Nodup ∧ Settings.default.sortKey ∉ orParams.names ∧
      ∃ q q', build family.catalog "Person" .default orParams = .ok q ∧
        build family.catalog "Person" .default (Settings.default.wrapped orParams) = .ok q' ∧
        q.ors.length = 1 ∧ q'.ors.length = 0 ∧ (∀ value : Condition → Bool, q.holds value = q'.holds value) ∧
        ∀ options, ∃ query query', q.selectWith family.catalog options = .ok query ∧
          q'.selectWith family.catalog options = .ok query' ∧
          ∀ chain, (query.Joins chain ↔ chain = ["children"]) ∧ (query'.Joins chain ↔ chain = ["children"]) := by
  have hkeys : Settings.default.reservedKeys.Nodup := by decide +kernel
  have hsort : Settings.default.sortKey ∉ orParams.names := by decide +kernel
  have hbuilt : (build family.catalog "Person" .default orParams).toOption.map (fun q =>
      (q.ors.length, q.sorts, (leafPaths q.leaves).flatMap AttributePath.stages)) =
        some (1, [], [["children"]]) := by decide +kernel
  have hbuilt' : (build family.catalog "Person" .default (Settings.default.wrapped orParams)).toOption.map
      (·.ors.length) = some 0 := by decide +kernel
  rcases build_wrapped family "Person" .default orParams hkeys hsort with
    ⟨e, he, -⟩ | ⟨q, q', hq, hq', hholds, hqueries⟩
  · rw [he] at hbuilt
    cases hbuilt
  · rw [hq] at hbuilt
    rw [hq'] at hbuilt'
    obtain ⟨hors, hsorts, hstages⟩ : q.ors.length = 1 ∧ q.sorts = [] ∧
        (leafPaths q.leaves).flatMap AttributePath.stages = [["children"]] := by
      simpa [Except.toOption] using hbuilt
    refine ⟨hkeys, hsort, q, q', hq, hq', hors, Option.some.inj hbuilt', hholds, fun options => ?_⟩
    obtain ⟨query, query', hquery, hquery', hchains⟩ := hqueries options
    obtain ⟨same, hsame, hjoins⟩ := joins_select (.build hq) hsorts options
    obtain rfl : query = same := Except.ok.inj (hquery.symm.trans hsame)
    have hchildren (chain : List String) : query.Joins chain ↔ chain = ["children"] := by
      rw [hjoins, ← mem_stages_iff, hstages, List.mem_singleton]
    exact ⟨query, query', hquery, hquery', fun chain =>
      ⟨hchildren chain, (hchains chain).symm.trans (hchildren chain)⟩⟩

end Search

end Criteria
