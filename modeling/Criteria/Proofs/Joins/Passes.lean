import Criteria.Proofs.Joins.Chains
import Criteria.Proofs.Joins.Reach
import Criteria.Proofs.Searches.Leaves

/-!
# Passes over attributes

Compiling touches a join table by resolving attributes, one after the other, and in no other way.

* `leafPaths`, `sortPaths` — the attributes of conditions and of sorts, in order.
* `Passes` — attributes resolved in order: all of them, or only some of the first.
* `compileNodes_passes`, `compileSorts_passes` — compiling is a pass, and resolves all attributes if it succeeds.
* `Passes.eq_foldl` — what a pass leaves is what its attributes leave when each is resolved for itself.
-/

namespace Criteria

open JoinTable

/-- The attributes of conditions, in order. -/
def leafPaths (leaves : List Condition) : List AttributePath := leaves.flatMap Condition.attributes

/-- The attributes of those sorts whose names resolve, in order. -/
def sortPaths (c : Catalog) (root : String) (sorts : List SortKey) : List AttributePath :=
  sorts.filterMap fun sort => (AttributePath.resolve c root sort.name).toOption

@[simp] theorem leafPaths_append (leaves leaves' : List Condition) :
    leafPaths (leaves ++ leaves') = leafPaths leaves ++ leafPaths leaves' := by
  simp [leafPaths]

theorem sortPaths_of_error {c : Catalog} {root : String} {sort : SortKey} {e : SearchError}
    (h : AttributePath.resolve c root sort.name = .error e) (rest : List SortKey) :
    sortPaths c root (sort :: rest) = sortPaths c root rest := by
  simp [sortPaths, h, Except.toOption]

theorem sortPaths_of_ok {c : Catalog} {root : String} {sort : SortKey} {path : AttributePath}
    (h : AttributePath.resolve c root sort.name = .ok path) (rest : List SortKey) :
    sortPaths c root (sort :: rest) = path :: sortPaths c root rest := by
  simp [sortPaths, h, Except.toOption]

namespace JoinTable

variable {c : Catalog} {t u v : JoinTable} {paths rest : List AttributePath} {all : Bool}

/-- Attributes resolved in order, from one table to another; `all` says whether none is left over. -/
inductive Passes (c : Catalog) : JoinTable → List AttributePath → JoinTable → Bool → Prop
  | done (t : JoinTable) : Passes c t [] t true
  | stop (t : JoinTable) (paths : List AttributePath) : Passes c t paths t false
  | fail {t u : JoinTable} {path : AttributePath} {rest : List AttributePath} {e : SearchError}
      (h : t.resolve c path = (u, .error e)) : Passes c t (path :: rest) u false
  | next {t u v : JoinTable} {path : AttributePath} {rest : List AttributePath} {column : Column} {all : Bool}
      (h : t.resolve c path = (u, .ok column)) (hrest : Passes c u rest v all) : Passes c t (path :: rest) v all

theorem Passes.append (h : Passes c t paths u true) (hrest : Passes c u rest v all) :
    Passes c t (paths ++ rest) v all := by
  generalize hall : true = all' at h
  induction h with
  | done => exact hrest
  | stop => cases hall
  | fail => cases hall
  | next hpath _ ih => exact .next hpath (ih hrest hall)

theorem Passes.append_left (h : Passes c t paths u false) (rest : List AttributePath) :
    Passes c t (paths ++ rest) u false := by
  generalize hall : false = all' at h
  induction h with
  | done => cases hall
  | stop => exact .stop _ _
  | fail hpath => exact .fail hpath
  | next hpath _ ih =>
    subst hall
    exact .next hpath (ih rfl)

theorem Passes.grows (hw : WellFormed c t) (h : Passes c t paths u all) : Grows c t u := by
  induction h with
  | done => exact .refl
  | stop => exact .refl
  | @fail t u path _ _ h => exact Grows.to (resolve_grows hw path) h
  | @next t u v path _ _ _ h _ ih =>
    have hgrow := Grows.to (resolve_grows hw path) h
    exact hgrow.trans (ih (hgrow.wellFormed hw))

/-- A pass resolves its first attributes, each for itself. -/
theorem Passes.eq_foldl (h : Passes c t paths u all) :
    ∃ pre, pre <+: paths ∧ u = pre.foldl (fun t path => (t.resolve c path).1) t := by
  induction h with
  | done => exact ⟨[], List.nil_prefix, rfl⟩
  | stop => exact ⟨[], List.nil_prefix, rfl⟩
  | @fail t u path rest e h => exact ⟨[path], List.prefix_append [path] rest, by simp [h]⟩
  | @next t u v path rest column all h hrest ih =>
    obtain ⟨pre, hpre, rfl⟩ := ih
    exact ⟨path :: pre, List.cons_prefix_cons.2 ⟨rfl, hpre⟩, by simp [h]⟩

end JoinTable

/-! ## Compiling is a pass -/

variable {c : Catalog} {t : JoinTable}

theorem attributeTerms_passes (c : Catalog) (cond : Condition) (t : JoinTable) (paths : List AttributePath) :
    Passes c t paths (cond.attributeTerms c t paths).1 (cond.attributeTerms c t paths).2.isOk := by
  induction paths generalizing t with
  | nil => exact .done t
  | cons path rest ih =>
    unfold Condition.attributeTerms
    split
    · rename_i u e hpath
      exact .fail hpath
    · rename_i u column hpath
      have hrest := ih u
      split
      · exact .next hpath (.stop u rest)
      · split <;> rename_i heq <;> rw [heq] at hrest <;> exact .next hpath hrest

theorem compileCondition_passes (c : Catalog) (cond : Condition) (t : JoinTable) :
    Passes c t cond.attributes (compileCondition c cond t).1 (compileCondition c cond t).2.isOk := by
  have h := attributeTerms_passes c cond t cond.attributes
  unfold compileCondition
  split <;> rename_i heq <;> rw [heq] at h <;> exact h

mutual

theorem compileNode_passes (c : Catalog) (t : JoinTable) : (node : Node) →
    Passes c t (leafPaths node.leaves) (compileNode c t node).1 (compileNode c t node).2.isOk
  | .condition cond => by
    rw [compileNode, Node.leaves, leafPaths, List.flatMap_singleton]
    exact compileCondition_passes c cond t
  | .group m members => by
    have h := compileNodes_passes c t members
    rw [compileNode, Node.leaves]
    split <;> rename_i heq <;> rw [heq] at h <;> exact h

theorem compileNodes_passes (c : Catalog) (t : JoinTable) : (nodes : List Node) →
    Passes c t (leafPaths (Junction.leaves nodes)) (compileNodes c t nodes).1 (compileNodes c t nodes).2.isOk
  | [] => by
    rw [compileNodes]
    exact .done t
  | node :: rest => by
    have hnode := compileNode_passes c t node
    rw [compileNodes, Junction.leaves, leafPaths_append]
    split
    · rename_i u e heq
      rw [heq] at hnode
      exact hnode.append_left _
    · rename_i u term heq
      rw [heq] at hnode
      have hrest := compileNodes_passes c u rest
      split <;> rename_i heq' <;> rw [heq'] at hrest <;> exact hnode.append hrest

end

theorem compileSorts_passes (hw : WellFormed c t) (options : Options) (sorts : List SortKey) :
    Passes c t (sortPaths c t.root.name sorts) (compileSorts c options t sorts).1
      (compileSorts c options t sorts).2.isOk := by
  induction sorts generalizing t with
  | nil => exact .done t
  | cons sort rest ih =>
    unfold compileSorts
    split
    · rename_i e hresolve
      rw [sortPaths_of_error hresolve]
      split
      · exact ih hw
      · exact .stop t _
    · rename_i path hresolve
      rw [sortPaths_of_ok hresolve]
      split
      · rename_i u e hcolumn
        exact .fail hcolumn
      · rename_i u column hcolumn
        have hgrow := Grows.to (resolve_grows hw path) hcolumn
        have hrest := ih (Grows.wellFormed hgrow hw)
        rw [(Grows.continues hgrow).root] at hrest
        split <;> rename_i heq <;> rw [heq] at hrest <;> exact .next hcolumn hrest

end Criteria
