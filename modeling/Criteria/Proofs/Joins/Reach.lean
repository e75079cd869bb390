import Criteria.Proofs.Joins.Growth

/-!
# The join tables that can come about

* `Operation`, `perform` — what may be done with a join table: resolve an attribute or a name, compile a node, evaluate
  a whole search, or forget all joins.
* `Reachable` — the tables after any operations on a table without joins; each has grown from such a table.
* `compileNode_grows`, `compileSorts_grows`, `evaluate_grows` — compiling grows the table, whether or not it succeeds.
-/

namespace Criteria

open JoinTable

variable {c : Catalog} {t : JoinTable}

/-! ## Compiling grows the table -/

theorem attributeTerms_grows (cond : Condition) (hw : WellFormed c t) (paths : List AttributePath) :
    Grows c t (cond.attributeTerms c t paths).1 := by
  induction paths generalizing t with
  | nil => exact .refl
  | cons path rest ih =>
    have hpath := resolve_grows hw path
    unfold Condition.attributeTerms
    split
    · rename_i u e heq
      exact Grows.to hpath heq
    · rename_i u column heq
      have hgrow := Grows.to hpath heq
      have hrest := ih (Grows.wellFormed hgrow hw)
      split
      · exact hgrow
      · split <;> rename_i heq' <;> exact hgrow.trans (Grows.to hrest heq')

theorem compileCondition_grows (cond : Condition) (hw : WellFormed c t) : Grows c t (compileCondition c cond t).1 := by
  have h := attributeTerms_grows cond hw cond.attributes
  unfold compileCondition
  split <;> rename_i heq <;> exact Grows.to h heq

mutual

theorem compileNode_grows {t : JoinTable} (hw : WellFormed c t) : (node : Node) → Grows c t (compileNode c t node).1
  | .condition cond => by
    rw [compileNode]
    exact compileCondition_grows cond hw
  | .group combinator members => by
    have h := compileNodes_grows hw members
    rw [compileNode]
    split <;> rename_i heq <;> exact Grows.to h heq

theorem compileNodes_grows {t : JoinTable} (hw : WellFormed c t) :
    (nodes : List Node) → Grows c t (compileNodes c t nodes).1
  | [] => by
    rw [compileNodes]
  | node :: rest => by
    have hnode := compileNode_grows hw node
    rw [compileNodes]
    split
    · rename_i u e heq
      exact Grows.to hnode heq
    · rename_i u term heq
      have hgrow := Grows.to hnode heq
      have hrest := compileNodes_grows (Grows.wellFormed hgrow hw) rest
      split <;> rename_i heq' <;> exact hgrow.trans (Grows.to hrest heq')

end

theorem compileSorts_grows (options : Options) (hw : WellFormed c t) (sorts : List SortKey) :
    Grows c t (compileSorts c options t sorts).1 := by
  induction sorts generalizing t with
  | nil => exact .refl
  | cons sort rest ih =>
    unfold compileSorts
    split
    · split
      · exact ih hw
      · exact .refl
    · rename_i path hpath
      have hcolumn := resolve_grows hw path
      split
      · rename_i u e heq
        exact Grows.to hcolumn heq
      · rename_i u column heq
        have hgrow := Grows.to hcolumn heq
        have hrest := ih (Grows.wellFormed hgrow hw)
        split <;> rename_i heq' <;> exact hgrow.trans (Grows.to hrest heq')

theorem evaluate_grows (c : Catalog) (root : Entity) (base : Junction) (ors : List Junction) (sorts : List SortKey)
    (options : Options) : Grows c (start root) (evaluate c root base ors sorts options).1 := by
  have hnodes := compileNodes_grows (wellFormed_start c root) (base ++ ors.map (Node.group .or))
  unfold evaluate
  split
  · rename_i u e heq
    exact Grows.to hnodes heq
  · rename_i u terms heq
    have hgrow := Grows.to hnodes heq
    have hsorts := compileSorts_grows options (Grows.wellFormed hgrow (wellFormed_start c root)) sorts
    split <;> rename_i heq' <;> exact hgrow.trans (Grows.to hsorts heq')

/-! ## Operations -/

namespace JoinTable

/-- What may be done with a join table. -/
inductive Operation where
  | resolve (path : AttributePath)
  | resolveName (name : String)
  | compile (node : Node)
  | evaluate (base : Junction) (ors : List Junction) (sorts : List SortKey) (options : Options)
  /-- Forget all joins. -/
  | reset

/-- The table after an operation, whether or not it succeeds. -/
def perform (c : Catalog) (t : JoinTable) : Operation → JoinTable
  | .resolve path => (t.resolve c path).1
  | .resolveName name => (t.resolveName c name).1
  | .compile node => (compileNode c t node).1
  | .evaluate base ors sorts options => (Criteria.evaluate c t.root base ors sorts options).1
  | .reset => start t.root

/-- The tables that operations on a table without joins lead to. -/
inductive Reachable (c : Catalog) (root : Entity) : JoinTable → Prop
  | start : Reachable c root (start root)
  | perform {t : JoinTable} (h : Reachable c root t) (op : Operation) : Reachable c root (t.perform c op)

/-- An operation adds joins, to those that are there or to none. -/
theorem perform_grows (hw : WellFormed c t) (op : Operation) :
    Grows c t (t.perform c op) ∨ Grows c (start t.root) (t.perform c op) := by
  cases op with
  | resolve path => exact .inl (resolve_grows hw path)
  | resolveName name => exact .inl (resolveName_grows hw name)
  | compile node => exact .inl (compileNode_grows hw node)
  | evaluate base ors sorts options => exact .inr (evaluate_grows c t.root base ors sorts options)
  | reset => exact .inr .refl

theorem Reachable.grows {root : Entity} (h : Reachable c root t) : Grows c (JoinTable.start root) t := by
  induction h with
  | start => exact .refl
  | perform _ op ih =>
    rcases perform_grows (ih.wellFormed (wellFormed_start c root)) op with hop | hop
    · exact ih.trans hop
    · rwa [ih.continues.root] at hop

theorem Reachable.wellFormed {root : Entity} (h : Reachable c root t) : WellFormed c t :=
  h.grows.wellFormed (wellFormed_start c root)

end JoinTable

end Criteria
