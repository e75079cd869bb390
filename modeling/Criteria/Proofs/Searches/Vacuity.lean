import Criteria.Proofs.Searches.Bindings
import Criteria.Proofs.Searches.Populated

/-!
# Filters that say something

* `Expr.isPopulated` — an expression without "true", without an empty group and without an empty list in it.
* `Expr.Restricts` — such an expression does not hold without a leaf that does (`Expr.restricts`).
* `isPopulated_compileNodes` — sound conditions in populated groups compile to such expressions.
* `Search.groups_have_members` — so do searches, but for an or-group whose last condition has been taken out.
-/

namespace Criteria

/-! ## Expressions -/

mutual

/-- Whether an expression has neither "true" nor a group without terms nor a list without values in it. -/
def Expr.isPopulated : Expr → Bool
  | .always => false
  | .inList _ values _ => !values.isEmpty
  | .group _ terms => !terms.isEmpty && Expr.allPopulated terms
  | _ => true

def Expr.allPopulated : List Expr → Bool
  | [] => true
  | term :: rest => term.isPopulated && Expr.allPopulated rest

end

theorem Expr.allPopulated_iff {terms : List Expr} :
    allPopulated terms = true ↔ ∀ term ∈ terms, term.isPopulated = true := by
  induction terms with
  | nil => simp [allPopulated]
  | cons term rest ih => simp [allPopulated, ih]

theorem Expr.isPopulated_group {m : Combinator} {terms : List Expr} :
    (group m terms).isPopulated = true ↔ terms ≠ [] ∧ ∀ term ∈ terms, term.isPopulated = true := by
  rw [isPopulated, Bool.and_eq_true, allPopulated_iff]
  simp

theorem isPopulated_joinTerms {m : Combinator} {terms : List Expr} (hne : terms ≠ [])
    (h : ∀ term ∈ terms, term.isPopulated = true) : (joinTerms m terms).isPopulated = true := by
  unfold joinTerms
  split
  · exact h _ (List.mem_singleton_self _)
  · exact Expr.isPopulated_group.2 ⟨hne, h⟩

/-- Such an expression needs a leaf that holds. -/
theorem Expr.holds_of_isPopulated : (e : Expr) → e.isPopulated = true → e.holds (fun _ => false) = false
  | .always, h => by cases h
  | .compare _ _ _, _ | .like _ _ _ _, _ | .inList _ _ _, _ | .isNull _ _, _ | .isBool _ _, _ => rfl
  | .group m terms, h => by
    rw [isPopulated_group] at h
    rw [holds, allHold_eq]
    apply Combinator.combine_eq_false m (by simpa using h.1)
    intro value hvalue
    obtain ⟨term, hterm, rfl⟩ := List.mem_map.1 hvalue
    exact holds_of_isPopulated term (h.2 term hterm)

/-- What says something: nothing in it is empty, and it needs a leaf that holds. -/
structure Expr.Restricts (e : Expr) : Prop where
  isPopulated : e.isPopulated = true
  needsLeaf : e.holds (fun _ => false) = false

theorem Expr.restricts {e : Expr} (h : e.isPopulated = true) : e.Restricts := ⟨h, e.holds_of_isPopulated h⟩

/-! ## Compiling -/

theorem Predicate.isPopulated_holdsTerm (p : Predicate) (column : Column) :
    (p.holdsTerm column).isPopulated = true := by
  cases p <;> rfl

theorem Predicate.isPopulated_valueTerm {p : Predicate} {column : Column} {raw : String} {e : Expr}
    (h : p.valueTerm column raw = .ok e) : e.isPopulated = true := by
  unfold valueTerm at h
  split at h <;> split at h <;> cases h <;> rfl

theorem Predicate.isPopulated_term {p : Predicate} {column : Column} {operand : Operand} {e : Expr}
    (hne : operand ≠ .list []) (h : p.term column operand = .ok e) : e.isPopulated = true := by
  cases operand with
  | value raw => exact isPopulated_valueTerm h
  | flag holds =>
    cases h
    unfold flagTerm
    split <;> exact isPopulated_holdsTerm _ column
  | list raws =>
    rw [term] at h
    split at h <;> cases h
    rename_i values hvalues
    have hlength : values.length = raws.length := length_collect hvalues
    cases values with
    | cons value rest => rfl
    | nil =>
      obtain rfl := List.length_eq_zero_iff.1 hlength.symm
      exact absurd rfl hne

namespace Condition

variable {c : Catalog} {t u : JoinTable} {cond : Condition} {root : String}

theorem operands_of_sound (h : cond.Sound c root) : cond.operands ≠ [] ∧ .list [] ∉ cond.operands := by
  unfold operands
  split
  · simpa using h.texts_ne
  · simpa using h.texts_ne
  · rename_i harity
    cases htexts : cond.value.texts with
    | nil => exact absurd htexts h.texts_ne
    | cons s rest =>
      obtain ⟨holds, hholds⟩ := Option.isSome_iff_exists.1 (h.flags harity s (by simp [htexts]))
      simp [hholds]

theorem isPopulated_attributeTerms (h : cond.Sound c root) {paths : List AttributePath} {terms : List Expr}
    (hterms : cond.attributeTerms c t paths = (u, .ok terms)) :
    (∀ term ∈ terms, term.isPopulated = true) ∧ (terms = [] → paths = []) := by
  obtain ⟨hne, hlist⟩ := operands_of_sound h
  induction paths generalizing t terms with
  | nil =>
    cases hterms
    exact ⟨nofun, fun _ => rfl⟩
  | cons path rest ih =>
    obtain ⟨v, column, first, more, -, hfirst, hmore, rfl⟩ := attributeTerms_cons_eq_ok hterms
    have htests := columnTerms_eq_ok hfirst
    refine ⟨List.forall_mem_append.2 ⟨?_, (ih hmore).1⟩, ?_⟩
    · intro term hterm
      have hmem := List.mem_map_of_mem (f := Except.ok (ε := SearchError)) hterm
      rw [← htests] at hmem
      obtain ⟨operand, hoperand, htest⟩ := List.mem_map.1 hmem
      exact Predicate.isPopulated_term (fun heq => hlist (heq ▸ hoperand)) htest
    · intro hnil
      rw [(List.append_eq_nil_iff.1 hnil).1, List.map_nil, List.map_eq_nil_iff] at htests
      exact absurd htests hne

theorem isPopulated_compileCondition (h : cond.Sound c root) {term : Expr}
    (hterm : compileCondition c cond t = (u, .ok term)) : term.isPopulated = true := by
  obtain ⟨terms, hterms, rfl⟩ := compileCondition_eq_ok hterm
  obtain ⟨hall, hnil⟩ := isPopulated_attributeTerms h hterms
  exact isPopulated_joinTerms (fun h' => h.attributes_ne (hnil h')) hall

end Condition

mutual

theorem isPopulated_compileNode {c : Catalog} {t u : JoinTable} {root : String} : (node : Node) → {term : Expr} →
    (∀ cond ∈ node.leaves, cond.Sound c root) → Junction.Populated [node] → compileNode c t node = (u, .ok term) →
    term.isPopulated = true
  | .condition cond, term, hs, hp, h => by
    rw [compileNode] at h
    exact Condition.isPopulated_compileCondition (hs cond (List.mem_singleton_self cond)) h
  | .group m members, term, hs, hp, h => by
    obtain ⟨terms, hterms, rfl⟩ := compileNode_group_eq_ok h
    obtain ⟨hne, hmembers⟩ := Junction.populated_iff.1 hp members ⟨m, List.mem_singleton_self _⟩
    refine Expr.isPopulated_group.2 ⟨?_, isPopulated_compileNodes members hs hmembers hterms⟩
    intro hnil
    have hlength := length_compileNodes hterms
    rw [hnil] at hlength
    exact hne (List.length_eq_zero_iff.1 hlength.symm)

theorem isPopulated_compileNodes {c : Catalog} {t u : JoinTable} {root : String} : (nodes : List Node) →
    {terms : List Expr} → (∀ cond ∈ Junction.leaves nodes, cond.Sound c root) → Junction.Populated nodes →
    compileNodes c t nodes = (u, .ok terms) → ∀ term ∈ terms, term.isPopulated = true
  | [], terms, hs, hp, h => by
    rw [compileNodes] at h
    cases h
    exact nofun
  | node :: rest, terms, hs, hp, h => by
    obtain ⟨v, first, more, hfirst, hmore, rfl⟩ := compileNodes_cons_eq_ok h
    obtain ⟨hnode, hrest⟩ := Junction.populated_append (j := [node]).1 hp
    rw [Junction.leaves] at hs
    have hleaves := List.forall_mem_append.1 hs
    exact List.forall_mem_cons.2 ⟨isPopulated_compileNode node hleaves.1 hnode hfirst,
      isPopulated_compileNodes rest hleaves.2 hrest hmore⟩

end

/-- An or-group without members compiles to a group without terms, every other one to a term that says something. -/
theorem compileNodes_ors {c : Catalog} {t u : JoinTable} {root : String} {groups : List Junction} {terms : List Expr}
    (hs : ∀ group ∈ groups, ∀ cond ∈ Junction.leaves group, cond.Sound c root)
    (hp : ∀ group ∈ groups, group.Populated) (h : compileNodes c t (groups.map (Node.group .or)) = (u, .ok terms)) :
    List.Forall₂ (fun group term => if group = [] then term = .group .or [] else term.Restricts) groups terms := by
  induction groups generalizing t terms with
  | nil =>
    rw [List.map_nil, compileNodes] at h
    cases h
    exact .nil
  | cons group rest ih =>
    obtain ⟨v, first, more, hfirst, hmore, rfl⟩ := compileNodes_cons_eq_ok h
    have hsound := List.forall_mem_cons.1 hs
    have hpopulated := List.forall_mem_cons.1 hp
    refine .cons ?_ (ih hsound.2 hpopulated.2 hmore)
    split
    · rename_i hempty
      subst hempty
      rw [compileNode, compileNodes] at hfirst
      cases hfirst
      rfl
    · rename_i hne
      have hnode : Junction.Populated ([group].map (Node.group .or)) :=
        Junction.populated_groups.2 (List.forall_mem_singleton.2 ⟨hne, hpopulated.1⟩)
      exact Expr.restricts (isPopulated_compileNode (.group .or group) hsound.1 hnode hfirst)

theorem filterOf_eq_always {terms : List Expr} : filterOf terms = .always ↔ terms = [] := by
  cases terms <;> simp [filterOf]

namespace Search

/-- Whatever is done with a search, all groups inside its base and its or-groups have members, and there are no more
or-groups without members than blank values have been written to or-groups. So its filter is "true" only for a search
without base and or-groups; it has an empty group only for an or-group without members, next to all other terms; and
none of these terms holds without a leaf that does. -/
theorem groups_have_members (s : Schema) {root : String} {settings : Settings} {params : Keyed Json}
    {built q : Search} {ops : List Operation} (h : build s.catalog root settings params = .ok built)
    (hq : q = built.performAll s.catalog ops) :
    q.Populated ∧ q.emptied ≤ ops.countP Operation.blanksGroup ∧
      ∀ options query, q.selectWith s.catalog options = .ok query →
        ∃ baseTerms orTerms, query.filters = [filterOf (baseTerms ++ orTerms)] ∧
          (filterOf (baseTerms ++ orTerms) = .always ↔ q.base = [] ∧ q.ors = []) ∧
          baseTerms.length = q.base.length ∧ (∀ term ∈ baseTerms, term.Restricts) ∧
          List.Forall₂ (fun group term => if group = [] then term = .group .or [] else term.Restricts)
            q.ors orTerms := by
  obtain ⟨hbuilt, hnone⟩ := populated_of_build h
  have hpopulated : q.Populated := by
    rw [hq]
    exact populated_performAll hbuilt ops
  have hreachable : Reachable s.catalog q := by
    rw [hq]
    exact (Reachable.build h).performAll ops
  refine ⟨hpopulated, ?_, ?_⟩
  · have hcount := emptied_performAll (c := s.catalog) built ops
    rwa [hnone, Nat.zero_add, ← hq] at hcount
  · intro options query hselect
    obtain ⟨entity, t, terms, hterms, hfilters⟩ := filters_selectWith hselect
    obtain ⟨v, baseTerms, orTerms, hbase, hors, rfl⟩ := compileNodes_append_eq_ok hterms
    have hsound := hreachable.sound
    rw [leaves, List.forall_mem_append, List.forall_mem_flatMap] at hsound
    have horTerms := compileNodes_ors hsound.2 hpopulated.ors hors
    have hlength := length_compileNodes hbase
    refine ⟨baseTerms, orTerms, hfilters, ?_, hlength, ?_, horTerms⟩
    · rw [filterOf_eq_always, List.append_eq_nil_iff, ← List.length_eq_zero_iff, hlength, List.length_eq_zero_iff,
        ← List.length_eq_zero_iff (l := orTerms), ← horTerms.length_eq, List.length_eq_zero_iff]
    · intro term hterm
      exact Expr.restricts (isPopulated_compileNodes q.base hsound.1 hpopulated.base hbase term hterm)

/-- The condition on salaries goes, which is the only one of its group, and one on names comes behind it. -/
def emptyingOps : List Operation := [.orSet 0 "salary_gt" (.scalar " "), .orSet 1 "name_eq" (.scalar "Bert")]

theorem isSome_familyBuilt : familyBuilt.toOption.isSome = true := by decide +kernel

def emptiedSearch : Search := (familyBuilt.toOption.get isSome_familyBuilt).performAll family.catalog emptyingOps

theorem groups_have_members_emptied :
    emptiedSearch.emptied = 1 ∧ emptyingOps.countP Operation.blanksGroup = 1 ∧
      ∃ query baseTerms last, emptiedSearch.selectWith family.catalog ⟨false, false⟩ = .ok query ∧
        query.filters = [.group .and (baseTerms ++ [.group .or [], last])] ∧ baseTerms.length = 1 ∧ last.Restricts := by
  have hbuilt : familyBuilt = .ok _ := eq_ok_get (by decide +kernel)
  have hok : (emptiedSearch.selectWith family.catalog ⟨false, false⟩).isOk = true := by decide +kernel
  refine ⟨by decide +kernel, by decide, ?_⟩
  cases hselect : emptiedSearch.selectWith family.catalog ⟨false, false⟩ with
  | error e =>
    rw [hselect] at hok
    cases hok
  | ok query =>
    obtain ⟨-, -, hfilters⟩ := groups_have_members family (q := emptiedSearch) hbuilt rfl
    obtain ⟨baseTerms, orTerms, hfilter, -, hlength, -, hors⟩ := hfilters _ query hselect
    have hbase : emptiedSearch.base.length = 1 := by decide +kernel
    have hshape : emptiedSearch.ors.map List.isEmpty = [true, false] := by decide +kernel
    generalize emptiedSearch.ors = ors at hshape hors
    rcases hors with _ | ⟨hfirst, _ | ⟨hsecond, _ | _⟩⟩ <;> simp at hshape
    rw [if_pos hshape.1] at hfirst
    rw [if_neg hshape.2] at hsecond
    subst hfirst
    refine ⟨query, baseTerms, _, rfl, ?_, hlength.trans hbase, hsecond⟩
    rw [hfilter, filterOf]
    simp

end Search

end Criteria
