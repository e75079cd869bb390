import Criteria.Proofs.Joins.Stages
import Criteria.Proofs.Searches.Meaning

/-!
# What an evaluation emits

* `Expr.columns` — the columns of an expression; `Predicate.columns_term`: a predicate speaks of its column only.
* `Qualifies` — a column is read from the root table or from a join; `compileNodes_qualifies`,
  `compileSorts_qualifies`, `compiled_qualifies`: all columns that compiling gives are.
* `evaluatedPaths` — the attributes of an evaluation; `lists_evaluate`: its joins list their stages.
* `evaluate_emits` — the joins of an evaluation are those of the stages of its attributes, each once, in order of first
  use, whatever has been joined before; parents stand in front, and all columns are read from what is there.
-/

namespace Criteria

open JoinTable

/-! ## Columns of expressions -/

mutual

/-- The columns of an expression, in order. -/
def Expr.columns : Expr → List Column
  | .always => []
  | .compare column _ _ | .like column _ _ _ | .inList column _ _ | .isNull column _ | .isBool column _ => [column]
  | .group _ terms => Expr.allColumns terms

def Expr.allColumns : List Expr → List Column
  | [] => []
  | term :: rest => Expr.columns term ++ Expr.allColumns rest

end

theorem Expr.allColumns_eq_flatMap (terms : List Expr) : Expr.allColumns terms = terms.flatMap Expr.columns := by
  induction terms with
  | nil => rfl
  | cons term rest ih => simp [Expr.allColumns, ih]

theorem columns_joinTerms (m : Combinator) (terms : List Expr) :
    (joinTerms m terms).columns = Expr.allColumns terms := by
  unfold joinTerms
  split <;> simp [Expr.columns, Expr.allColumns]

theorem columns_filterOf (terms : List Expr) : (filterOf terms).columns = Expr.allColumns terms := by
  cases terms <;> simp [filterOf, Expr.columns, Expr.allColumns]

namespace Predicate

variable {p : Predicate} {column : Column}

theorem columns_holdsTerm : ∀ other ∈ (p.holdsTerm column).columns, other = column := by
  cases p <;> simp [holdsTerm, Expr.columns, Expr.allColumns]

theorem columns_valueTerm {raw : String} {e : Expr} (h : p.valueTerm column raw = .ok e) :
    ∀ other ∈ e.columns, other = column := by
  unfold valueTerm at h
  split at h
  · split at h <;> cases h
    simp [Expr.columns]
  · split at h <;> cases h
    simp [Expr.columns]

theorem columns_term {operand : Operand} {e : Expr} (h : p.term column operand = .ok e) :
    ∀ other ∈ e.columns, other = column := by
  cases operand with
  | value raw => exact columns_valueTerm h
  | list raws =>
    simp only [term] at h
    split at h <;> cases h
    simp [Expr.columns]
  | flag holds =>
    cases h
    unfold flagTerm
    split <;> exact columns_holdsTerm

end Predicate

/-! ## Where columns are read from -/

variable {c : Catalog} {t u : JoinTable}

/-- The column is read from the root table or from a join. -/
def JoinTable.Qualifies (t : JoinTable) (column : Column) : Prop :=
  column.qualifier = t.root.table ∨ ∃ j ∈ t.joins, column.qualifier = j.aliasName

theorem JoinTable.Continues.qualifies (h : Continues t u) {column : Column} (hq : t.Qualifies column) :
    u.Qualifies column := by
  rcases hq with hq | ⟨j, hj, hq⟩
  · exact .inl (by rw [hq, h.root])
  · exact .inr ⟨j, h.joins.subset hj, hq⟩

theorem JoinTable.IsJoined.qualifies (hw : WellFormed c u) {path : AttributePath} (h : u.IsJoined path) :
    u.Qualifies (u.columnOf path) := by
  have hcolumn := h.isColumnOf hw
  by_cases hhops : path.hops = []
  · exact .inl (hcolumn.root hhops)
  · obtain ⟨i, j, hj, hq, -⟩ := hcolumn.join hhops
    exact .inr ⟨j, List.mem_of_getElem? hj, hq⟩

theorem attributeTerms_qualifies (hw : WellFormed c t) {cond : Condition} {paths : List AttributePath}
    {terms : List Expr} (h : cond.attributeTerms c t paths = (u, .ok terms)) :
    ∀ column ∈ Expr.allColumns terms, u.Qualifies column := by
  have hwu := Grows.wellFormed (Grows.to (attributeTerms_grows cond hw paths) h) hw
  obtain ⟨hjoined, htests⟩ := Condition.attributeTerms_eq_ok hw h
  intro column hcolumn
  rw [Expr.allColumns_eq_flatMap, List.mem_flatMap] at hcolumn
  obtain ⟨term, hterm, hcolumn⟩ := hcolumn
  have htest : .ok term ∈ cond.testsOn u.columnOf paths := by
    rw [htests]
    exact List.mem_map_of_mem hterm
  obtain ⟨path, hpath, htest⟩ := List.mem_flatMap.1 htest
  obtain ⟨operand, -, htest⟩ := List.mem_map.1 htest
  rw [Predicate.columns_term htest column hcolumn]
  exact (hjoined path hpath).qualifies hwu

mutual

theorem compileNode_qualifies {t u : JoinTable} (hw : WellFormed c t) : (node : Node) → {term : Expr} →
    compileNode c t node = (u, .ok term) → ∀ column ∈ term.columns, u.Qualifies column
  | .condition cond, term, h => by
    rw [compileNode] at h
    obtain ⟨terms, hterms, rfl⟩ := compileCondition_eq_ok h
    rw [columns_joinTerms]
    exact attributeTerms_qualifies hw hterms
  | .group m members, term, h => by
    obtain ⟨terms, hterms, rfl⟩ := compileNode_group_eq_ok h
    exact compileNodes_qualifies hw members hterms

theorem compileNodes_qualifies {t u : JoinTable} (hw : WellFormed c t) : (nodes : List Node) → {terms : List Expr} →
    compileNodes c t nodes = (u, .ok terms) → ∀ column ∈ Expr.allColumns terms, u.Qualifies column
  | [], terms, h => by
    rw [compileNodes] at h
    cases h
    exact nofun
  | node :: rest, terms, h => by
    obtain ⟨v, first, more, hfirst, hmore, rfl⟩ := compileNodes_cons_eq_ok h
    have hwv := Grows.wellFormed (Grows.to (compileNode_grows hw node) hfirst) hw
    have hcont : Continues v u := Grows.continues (Grows.to (compileNodes_grows hwv rest) hmore)
    intro column hcolumn
    rcases List.mem_append.1 hcolumn with hcolumn | hcolumn
    · exact hcont.qualifies (compileNode_qualifies hw node hfirst column hcolumn)
    · exact compileNodes_qualifies hwv rest hmore column hcolumn

end

theorem compileSorts_qualifies (hw : WellFormed c t) {options : Options} {sorts : List SortKey} {orders : List Order}
    (h : compileSorts c options t sorts = (u, .ok orders)) : ∀ order ∈ orders, u.Qualifies order.column := by
  induction sorts generalizing t orders with
  | nil =>
    cases h
    exact nofun
  | cons sort rest ih =>
    unfold compileSorts at h
    split at h
    · split at h
      · exact ih hw h
      · cases h
    · rename_i path _
      split at h
      · cases h
      · rename_i v column hcolumn
        have hgrow := Grows.to (resolve_grows hw path) hcolumn
        have hwv := Grows.wellFormed hgrow hw
        split at h
        · cases h
        · rename_i w more hmore
          cases h
          have hcont : Continues v u := Grows.continues (Grows.to (compileSorts_grows options hwv rest) hmore)
          obtain ⟨hjoined, rfl⟩ := resolve_eq_ok hw hcolumn
          refine List.forall_mem_cons.2 ⟨hcont.qualifies (hjoined.qualifies hwv), ih hwv hmore⟩

/-! ## Evaluations -/

variable {root : Entity} {base : Junction} {ors : List Junction} {sorts : List SortKey} {options : Options}

/-- A join starts from the root table, or from a join in front of it. -/
theorem JoinTable.WellFormed.starts (hw : WellFormed c u) {i : Nat} {j : Join} (hj : u.joins[i]? = some j) :
    (j.parent = none ∧ j.parentQualifier = u.root.table) ∨
      ∃ (p : Nat) (parent : Join), j.parent = some p ∧ p < i ∧ u.joins[p]? = some parent ∧
        j.parentQualifier = parent.aliasName := by
  have hqualifier := hw.qualifier_eq hj
  cases hparent : j.parent with
  | none =>
    rw [hparent, qualifier] at hqualifier
    exact .inl ⟨rfl, hqualifier⟩
  | some p =>
    obtain ⟨parent, hp⟩ : ∃ parent, u.joins[p]? = some parent :=
      ⟨_, List.getElem?_eq_getElem (hw.hasPlace_parent hj p hparent)⟩
    rw [hparent, qualifier, hp] at hqualifier
    exact .inr ⟨p, parent, rfl, hw.parent_lt hj hparent, hp, hqualifier⟩

/-- The columns of the filter stay qualified while the sorts add joins. -/
theorem compiled_qualifies (hw : WellFormed c t) {nodes : List Node} {v : JoinTable} {terms : List Expr}
    {orders : List Order} (hterms : compileNodes c t nodes = (v, .ok terms))
    (horders : compileSorts c options v sorts = (u, .ok orders)) :
    ∀ column ∈ (filterOf terms).columns ++ orders.map Order.column, u.Qualifies column := by
  have hwv := Grows.wellFormed (Grows.to (compileNodes_grows hw nodes) hterms) hw
  have hcont : Continues v u := Grows.continues (Grows.to (compileSorts_grows options hwv sorts) horders)
  intro column hcolumn
  rw [columns_filterOf, List.mem_append] at hcolumn
  rcases hcolumn with hcolumn | hcolumn
  · exact hcont.qualifies (compileNodes_qualifies hw nodes hterms column hcolumn)
  · obtain ⟨order, horder, rfl⟩ := List.mem_map.1 hcolumn
    exact compileSorts_qualifies hwv horders order horder

/-- The attributes of the base, of the or-groups and of the sorts, in this order. -/
def evaluatedPaths (c : Catalog) (root : Entity) (base : Junction) (ors : List Junction) (sorts : List SortKey) :
    List AttributePath :=
  leafPaths (Junction.leaves base) ++ leafPaths (ors.flatMap Junction.leaves) ++ sortPaths c root.name sorts

theorem lists_evaluate {clauses : List Clause} (h : evaluate c root base ors sorts options = (u, .ok clauses)) :
    Lists u.joins ((evaluatedPaths c root base ors sorts).flatMap AttributePath.stages).eraseDups := by
  obtain ⟨t, terms, orders, hterms, horders, -⟩ := evaluate_eq_ok h
  have hw := wellFormed_start c root
  have hgrow := Grows.to (compileNodes_grows hw _) hterms
  have hnodes := compileNodes_passes c (start root) (base ++ ors.map (Node.group .or))
  rw [hterms, Junction.leaves_append, Junction.leaves_groups, leafPaths_append] at hnodes
  have hsorts := compileSorts_passes (Grows.wellFormed hgrow hw) options sorts
  rw [horders, (Grows.continues hgrow).root] at hsorts
  have hnone : Lists (start root).joins ([] : List (List String)).eraseDups := lists_nil
  exact hnone.passes hw (hnodes.append hsorts)

namespace JoinTable

/-- A successful evaluation emits its joins, one filter, an order and perhaps a grouping, the same whatever has been
done with the table. There is one join for each stage of an attribute, in order of first use; it starts from the root
table or from a join in front of it; and every column is read from the root table or from one of the joins. -/
theorem Reachable.evaluate_emits (h : Reachable c root t) {clauses : List Clause}
    (he : (evaluate c t.root base ors sorts options).2 = .ok clauses) :
    (evaluate c root base ors sorts options).2 = .ok clauses ∧
    ∃ (joins : List Join) (filter : Expr) (orders : List Order) (groups : List Column),
      clauses = joins.map .join ++ .filter filter :: (orders.map .order ++ groups.map .groupBy) ∧
      (JoinTable.perform c t (.evaluate base ors sorts options)).joins = joins ∧
      Lists joins ((evaluatedPaths c root base ors sorts).flatMap AttributePath.stages).eraseDups ∧
      (∀ (i : Nat) (j : Join), joins[i]? = some j → (j.parent = none ∧ j.parentQualifier = root.table) ∨
        ∃ (p : Nat) (parent : Join), j.parent = some p ∧ p < i ∧ joins[p]? = some parent ∧
          j.parentQualifier = parent.aliasName) ∧
      ∀ column ∈ filter.columns ++ orders.map Order.column ++ groups,
        column.qualifier = root.table ∨ ∃ j ∈ joins, column.qualifier = j.aliasName := by
  have hroot : t.root = root := h.grows.continues.root
  -- the joins of `t` do not matter: an evaluation takes its root only, and starts anew
  obtain ⟨u, hu⟩ : ∃ u, evaluate c root base ors sorts options = (u, .ok clauses) := by
    rw [hroot] at he
    exact ⟨_, Prod.ext rfl he⟩
  have hjoins : JoinTable.perform c t (.evaluate base ors sorts options) = u := by
    rw [JoinTable.perform, hroot, hu]
  have hw := wellFormed_start c root
  have hgrows : Grows c (JoinTable.start root) u := Grows.to (evaluate_grows c root base ors sorts options) hu
  have hsame : u.root = root := hgrows.continues.root
  refine ⟨by rw [hu], ?_⟩
  obtain ⟨v, terms, orders, hterms, horders, rfl⟩ := evaluate_eq_ok hu
  refine ⟨u.joins, filterOf terms, orders, if options.distinct then [keyColumn u.root] else [], ?_, by rw [hjoins],
    lists_evaluate hu, ?_, ?_⟩
  · unfold Criteria.clauses
    split <;> simp
  · intro i j hj
    rw [← hsame]
    exact (hgrows.wellFormed hw).starts hj
  · intro column hcolumn
    suffices hq : u.Qualifies column by rwa [Qualifies, hsame] at hq
    rcases List.mem_append.1 hcolumn with hcolumn | hcolumn
    · exact compiled_qualifies hw hterms horders column hcolumn
    · split at hcolumn
      · rw [List.mem_singleton.1 hcolumn]
        exact .inl rfl
      · cases hcolumn

/-- The joins to the children of children, left over from an attribute. -/
def grandchildren : JoinTable :=
  JoinTable.perform Search.family.catalog (JoinTable.start Search.person) (.resolveName "children_children_name")

theorem Reachable.evaluate_emits_family :
    Reachable Search.family.catalog Search.person grandchildren ∧ grandchildren.joins.length = 2 ∧
      ∃ clauses joins,
        (evaluate Search.family.catalog grandchildren.root Search.familySearch.base Search.familySearch.ors
          [⟨"children_salary", .asc⟩] ⟨true, true⟩).2 = .ok clauses ∧
        clauses.take joins.length = joins.map .join ∧ Lists joins [["children"]] := by
  have hreach : Reachable Search.family.catalog Search.person grandchildren := .perform .start _
  have hok : (evaluate Search.family.catalog grandchildren.root Search.familySearch.base Search.familySearch.ors
      [⟨"children_salary", .asc⟩] ⟨true, true⟩).2.isOk = true := by decide +kernel
  have hstages : ((evaluatedPaths Search.family.catalog Search.person Search.familySearch.base Search.familySearch.ors
      [⟨"children_salary", .asc⟩]).flatMap AttributePath.stages).eraseDups = [["children"]] := by decide +kernel
  refine ⟨hreach, by decide +kernel, ?_⟩
  cases he : (evaluate Search.family.catalog grandchildren.root Search.familySearch.base Search.familySearch.ors
      [⟨"children_salary", .asc⟩] ⟨true, true⟩).2 with
  | error e =>
    rw [he] at hok
    cases hok
  | ok clauses =>
    obtain ⟨-, joins, filter, orders, groups, hclauses, -, hlists, -⟩ := hreach.evaluate_emits he
    rw [hstages] at hlists
    refine ⟨clauses, joins, rfl, ?_, hlists⟩
    rw [hclauses, List.take_append_of_le_length (by simp), List.take_of_length_le (by simp)]

end JoinTable

end Criteria
