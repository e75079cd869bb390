import Criteria.Proofs.Searches.Compiles
import Mathlib.Data.List.Basic

/-!
# The meaning of a search

* `Expr.holds`, `Node.holds`, `Search.holds` — truth values of expressions by their leaves, and of trees by their
  conditions.
* `Condition.tests` — what a condition asks of its attributes, given a column for each.
* `Denotes` — the terms that nodes compile to mean what the nodes mean, on the columns of a join table; further joins
  leave that alone (`Denotes.continues`), and compiling gives it (`compileNodes_denotes`).
* `Search.clausesWith_denotes` — the one filter of a search means what its tree means, on the columns of the joins whose
  chains are those of the attributes.
-/

namespace Criteria

open JoinTable

/-! ## Truth values -/

mutual

/-- The truth value of an expression, given those of its leaves. -/
def Expr.holds (ν : Expr → Bool) : Expr → Bool
  | .always => true
  | .group m terms => m.combine (Expr.allHold ν terms)
  | leaf => ν leaf

/-- The truth values of expressions in order. -/
def Expr.allHold (ν : Expr → Bool) : List Expr → List Bool
  | [] => []
  | term :: rest => Expr.holds ν term :: Expr.allHold ν rest

end

mutual

/-- The truth value of a node, given those of its conditions. -/
def Node.holds (value : Condition → Bool) : Node → Bool
  | .condition cond => value cond
  | .group m members => m.combine (Junction.allHold value members)

/-- The truth values of nodes in order. -/
def Junction.allHold (value : Condition → Bool) : List Node → List Bool
  | [] => []
  | node :: rest => Node.holds value node :: Junction.allHold value rest

end

/-- The truth value of a search: its base and one member of each or-group have to hold, and a group without members
holds. -/
def Search.holds (value : Condition → Bool) (q : Search) : Bool :=
  q.base.all (Node.holds value) && q.ors.all fun j => Combinator.or.combine (Junction.allHold value j)

theorem Expr.allHold_eq (ν : Expr → Bool) (terms : List Expr) : allHold ν terms = terms.map (holds ν) := by
  induction terms with
  | nil => rfl
  | cons term rest ih => rw [allHold, ih, List.map_cons]

theorem Junction.allHold_eq (value : Condition → Bool) (nodes : List Node) :
    allHold value nodes = nodes.map (Node.holds value) := by
  induction nodes with
  | nil => rfl
  | cons node rest ih => rw [allHold, ih, List.map_cons]

theorem Search.holds_eq (value : Condition → Bool) (q : Search) :
    q.holds value = Combinator.and.combine (Junction.allHold value q.nodes) := by
  rw [Combinator.combine_and, Junction.allHold_eq, nodes, List.map_append, List.map_map, List.all_append, List.all_map,
    List.all_map]
  rfl

mutual

/-- Only the conditions of a node count. -/
theorem Node.holds_congr {value value' : Condition → Bool} : (node : Node) →
    (∀ cond ∈ node.leaves, value cond = value' cond) → node.holds value = node.holds value'
  | .condition cond, h => h cond List.mem_cons_self
  | .group m members, h => by
    rw [Node.holds, Node.holds, Junction.allHold_congr members h]

theorem Junction.allHold_congr {value value' : Condition → Bool} : (nodes : List Node) →
    (∀ cond ∈ Junction.leaves nodes, value cond = value' cond) →
    Junction.allHold value nodes = Junction.allHold value' nodes
  | [], _ => rfl
  | node :: rest, h => by
    rw [Junction.leaves] at h
    rw [Junction.allHold, Junction.allHold,
      Node.holds_congr node fun cond hcond => h cond (List.mem_append_left _ hcond),
      Junction.allHold_congr rest fun cond hcond => h cond (List.mem_append_right _ hcond)]

end

/-! ## Conditions -/

namespace Condition

variable {c : Catalog} {t u v : JoinTable} {cond : Condition}

/-- What a predicate is applied to beside each column: one text after the other, the list of the texts, or a flag. -/
def operands (cond : Condition) : List Operand :=
  match cond.predicate.arity with
  | .single => cond.value.texts.map Operand.value
  | .list => [.list cond.value.texts]
  | .flag => ((cond.value.texts.head?.bind Flag.parse?).map Operand.flag).toList

/-- The tests of a condition on some attributes, given a column for each. -/
def testsOn (columnOf : AttributePath → Column) (cond : Condition) (paths : List AttributePath) :
    List (Except SearchError Expr) :=
  paths.flatMap fun path => cond.operands.map fun operand => cond.predicate.term (columnOf path) operand

/-- The tests of a condition: its predicate on each attribute with each operand. -/
def tests (columnOf : AttributePath → Column) (cond : Condition) : List (Except SearchError Expr) :=
  cond.testsOn columnOf cond.attributes

/-- The truth value of a condition: that of its tests, joined by its combinator. -/
def holds (ν : Expr → Bool) (columnOf : AttributePath → Column) (cond : Condition) : Bool :=
  cond.combinator.combine ((cond.tests columnOf).map fun test =>
    match test with
    | .ok e => e.holds ν
    | .error _ => false)

theorem testsOn_congr {columnOf columnOf' : AttributePath → Column} {paths : List AttributePath}
    (h : ∀ path ∈ paths, columnOf path = columnOf' path) :
    cond.testsOn columnOf paths = cond.testsOn columnOf' paths := by
  unfold testsOn
  apply List.flatMap_congr
  intro path hpath
  rw [h path hpath]

/-- The terms of a column are its tests. -/
theorem columnTerms_eq_ok {column : Column} {terms : List Expr} (h : cond.columnTerms column = .ok terms) :
    cond.operands.map (cond.predicate.term column) = terms.map .ok := by
  unfold columnTerms at h
  unfold operands
  generalize cond.predicate.arity = arity at h ⊢
  cases arity with
  | single =>
    rw [List.map_map]
    exact collect_eq_ok.1 h
  | list => exact collect_eq_ok.1 h
  | flag =>
    dsimp only at h
    split at h
    · cases h
    · rename_i holds hflag
      rw [hflag]
      exact collect_eq_ok.1 h

theorem attributeTerms_eq_ok (hw : WellFormed c t) {paths : List AttributePath} {terms : List Expr}
    (h : cond.attributeTerms c t paths = (u, .ok terms)) :
    (∀ path ∈ paths, u.IsJoined path) ∧ cond.testsOn u.columnOf paths = terms.map .ok := by
  induction paths generalizing t terms with
  | nil =>
    cases h
    exact ⟨nofun, rfl⟩
  | cons path rest ih =>
    obtain ⟨v, column, first, more, hcolumn, hfirst, hmore, rfl⟩ := attributeTerms_cons_eq_ok h
    have hwv := Grows.wellFormed (Grows.to (resolve_grows hw path) hcolumn) hw
    have hcont : Continues v u := Grows.continues (Grows.to (attributeTerms_grows cond hwv rest) hmore)
    obtain ⟨hjoined, rfl⟩ := resolve_eq_ok hw hcolumn
    obtain ⟨hrest, htests⟩ := ih hwv hmore
    refine ⟨List.forall_mem_cons.2 ⟨hcont.isJoined hjoined, hrest⟩, ?_⟩
    rw [testsOn] at htests ⊢
    rw [List.flatMap_cons, htests, hcont.columnOf hwv hjoined, List.map_append, columnTerms_eq_ok hfirst]

theorem holds_joinTerms (ν : Expr → Bool) (m : Combinator) (terms : List Expr) :
    (joinTerms m terms).holds ν = m.combine (terms.map (Expr.holds ν)) := by
  unfold joinTerms
  split
  · rw [List.map_singleton, Combinator.combine_singleton]
  · rw [Expr.holds, Expr.allHold_eq]

/-- The columns of the attributes are all that a condition depends on. -/
theorem tests_congr {columnOf columnOf' : AttributePath → Column}
    (h : ∀ path ∈ cond.attributes, columnOf path = columnOf' path) : cond.tests columnOf = cond.tests columnOf' :=
  testsOn_congr h

end Condition

/-! ## Trees -/

variable {c : Catalog} {t u v : JoinTable}

/-- Terms mean what nodes mean, on the columns of a join table that has all their joins. -/
structure Denotes (u : JoinTable) (nodes : List Node) (terms : List Expr) : Prop where
  joined : ∀ cond ∈ Junction.leaves nodes, ∀ path ∈ cond.attributes, u.IsJoined path
  /-- Each test of each condition is an expression. -/
  tests : ∀ cond ∈ Junction.leaves nodes, ∀ test ∈ cond.tests u.columnOf, ∃ e, test = .ok e
  holds : ∀ ν, terms.map (Expr.holds ν) = Junction.allHold (Condition.holds ν u.columnOf) nodes

/-- Further joins leave the meaning alone. -/
theorem Denotes.continues (hcont : Continues u v) (hw : WellFormed c u) {nodes : List Node} {terms : List Expr}
    (h : Denotes u nodes terms) : Denotes v nodes terms := by
  have htests : ∀ cond ∈ Junction.leaves nodes, cond.tests v.columnOf = cond.tests u.columnOf := by
    intro cond hcond
    apply Condition.tests_congr
    intro path hpath
    exact hcont.columnOf hw (h.joined cond hcond path hpath)
  refine ⟨?_, ?_, ?_⟩
  · intro cond hcond path hpath
    exact hcont.isJoined (h.joined cond hcond path hpath)
  · intro cond hcond
    rw [htests cond hcond]
    exact h.tests cond hcond
  · intro ν
    rw [h.holds ν]
    apply Junction.allHold_congr
    intro cond hcond
    rw [Condition.holds, Condition.holds, htests cond hcond]

theorem Denotes.append {nodes rest : List Node} {terms more : List Expr} (h : Denotes u nodes terms)
    (hrest : Denotes u rest more) : Denotes u (nodes ++ rest) (terms ++ more) := by
  have hsplit {cond : Condition} (hcond : cond ∈ Junction.leaves (nodes ++ rest)) :
      cond ∈ Junction.leaves nodes ∨ cond ∈ Junction.leaves rest := by
    rwa [Junction.leaves_append, List.mem_append] at hcond
  refine ⟨?_, ?_, ?_⟩
  · intro cond hcond
    exact (hsplit hcond).elim (h.joined cond) (hrest.joined cond)
  · intro cond hcond
    exact (hsplit hcond).elim (h.tests cond) (hrest.tests cond)
  · intro ν
    rw [List.map_append, h.holds, hrest.holds, Junction.allHold_eq, Junction.allHold_eq, Junction.allHold_eq,
      List.map_append]

/-- A condition compiles to what it means. -/
theorem compileCondition_denotes (hw : WellFormed c t) {cond : Condition} {term : Expr}
    (h : compileCondition c cond t = (u, .ok term)) : Denotes u [.condition cond] [term] := by
  obtain ⟨terms, hterms, rfl⟩ := compileCondition_eq_ok h
  obtain ⟨hjoined, htests⟩ := Condition.attributeTerms_eq_ok hw hterms
  have hleaf {other : Condition} (hother : other ∈ Junction.leaves [.condition cond]) : other = cond := by
    simpa [Junction.leaves, Node.leaves] using hother
  refine ⟨?_, ?_, ?_⟩
  · intro other hother
    rw [hleaf hother]
    exact hjoined
  · intro other hother test htest
    rw [hleaf hother, Condition.tests, htests] at htest
    obtain ⟨e, -, rfl⟩ := List.mem_map.1 htest
    exact ⟨e, rfl⟩
  · intro ν
    rw [Junction.allHold, Node.holds, Junction.allHold, Condition.holds, Condition.tests, htests, List.map_map]
    rw [List.map_singleton, Condition.holds_joinTerms]
    rfl

mutual

theorem compileNode_denotes {t u : JoinTable} (hw : WellFormed c t) : (node : Node) → {term : Expr} →
    compileNode c t node = (u, .ok term) → Denotes u [node] [term]
  | .condition cond, term, h => by
    rw [compileNode] at h
    exact compileCondition_denotes hw h
  | .group m members, term, h => by
    obtain ⟨terms, hterms, rfl⟩ := compileNode_group_eq_ok h
    have hmembers := compileNodes_denotes hw members hterms
    have hleaves : Junction.leaves [.group m members] = Junction.leaves members := List.append_nil _
    refine ⟨?_, ?_, ?_⟩
    · rw [hleaves]
      exact hmembers.joined
    · rw [hleaves]
      exact hmembers.tests
    · intro ν
      rw [List.map_singleton, Expr.holds, Expr.allHold_eq, hmembers.holds]
      rfl

/-- Nodes compile to what they mean: what a node means stays as it is while those behind it add joins. -/
theorem compileNodes_denotes {t u : JoinTable} (hw : WellFormed c t) : (nodes : List Node) → {terms : List Expr} →
    compileNodes c t nodes = (u, .ok terms) → Denotes u nodes terms
  | [], terms, h => by
    rw [compileNodes] at h
    cases h
    exact ⟨nofun, nofun, fun _ => rfl⟩
  | node :: rest, terms, h => by
    obtain ⟨v, first, more, hfirst, hmore, rfl⟩ := compileNodes_cons_eq_ok h
    have hwv := Grows.wellFormed (Grows.to (compileNode_grows hw node) hfirst) hw
    have hcont : Continues v u := Grows.continues (Grows.to (compileNodes_grows hwv rest) hmore)
    have hnode := (compileNode_denotes hw node hfirst).continues hcont hwv
    exact hnode.append (compileNodes_denotes hwv rest hmore)

end

/-! ## Searches -/

theorem holds_filterOf (ν : Expr → Bool) (terms : List Expr) :
    (filterOf terms).holds ν = Combinator.and.combine (terms.map (Expr.holds ν)) := by
  cases terms with
  | nil => rfl
  | cons term rest =>
    rw [filterOf, Expr.holds, Expr.allHold_eq]
    exact nofun

/-- The column of an attribute in a query: it is qualified by the one join whose chain is that of the attribute, or by
the root table if there are no hops. -/
structure IsColumnOf (root : Entity) (joins : List Join) (path : AttributePath) (column : Column) : Prop where
  name : column.name = path.column
  type : column.type = path.type
  root : path.hops = [] → column.qualifier = root.table
  join : path.hops ≠ [] → ∃ i j, joins[i]? = some j ∧ column.qualifier = j.aliasName ∧
    ∀ i', Spells joins (some i') path.chain ↔ i' = i

theorem JoinTable.IsJoined.isColumnOf (hw : WellFormed c u) {path : AttributePath} (h : u.IsJoined path) :
    IsColumnOf u.root u.joins path (u.columnOf path) := by
  obtain ⟨last, hlast⟩ := Option.isSome_iff_exists.1 h
  have hspells := spells_of_place? hw .root hlast
  rw [List.nil_append] at hspells
  have hqualifier : (u.columnOf path).qualifier = u.qualifier last := by
    rw [columnOf, hlast, Option.getD_some]
  refine ⟨rfl, rfl, ?_, ?_⟩
  · intro hnil
    have hchain : path.chain = [] := by rw [AttributePath.chain, hnil, List.map_nil]
    rw [hchain] at hspells
    rw [hqualifier, hspells.inj hw .root, qualifier]
  · intro hne
    cases last with
    | none =>
      generalize hchain : path.chain = chain at hspells
      cases hspells
      exact absurd (List.map_eq_nil_iff.1 hchain) hne
    | some i =>
      have hi : i < u.joins.length := hspells.hasPlace i rfl
      refine ⟨i, u.joins[i], List.getElem?_eq_getElem hi, ?_, ?_⟩
      · rw [hqualifier, qualifier, List.getElem?_eq_getElem hi, Option.map_some, Option.getD_some]
      · intro i'
        constructor
        · intro h'
          exact Option.some.inj (h'.inj hw hspells)
        · intro h'
          rwa [h']

namespace Search

variable {q : Search} {options : Options}

/-- A search that has clauses has one filter among them, behind its joins, and the filter means what the search means,
on the columns that these joins give its attributes. -/
theorem clausesWith_denotes {clauses : List Clause} (h : q.clausesWith c options = .ok clauses) :
    ∃ root joins filter rest columnOf, c.entity? q.root = some root ∧
      clauses = joins.map .join ++ .filter filter :: rest ∧
      (∀ clause ∈ rest, (∃ order, clause = .order order) ∨ ∃ column, clause = .groupBy column) ∧
      (∀ cond ∈ q.leaves, ∀ path ∈ cond.attributes, IsColumnOf root joins path (columnOf path)) ∧
      (∀ cond ∈ q.leaves, ∀ test ∈ cond.tests columnOf, ∃ e, test = .ok e) ∧
      ∀ ν, filter.holds ν = q.holds (Condition.holds ν columnOf) := by
  unfold clausesWith at h
  split at h
  · cases h
  · rename_i root hroot
    unfold evaluate at h
    split at h
    · cases h
    · rename_i t terms hterms
      split at h
      · cases h
      · rename_i u orders horders
        cases h
        have hw := wellFormed_start c root
        have hwt := Grows.wellFormed (Grows.to (compileNodes_grows hw _) hterms) hw
        have hgrow := Grows.to (compileSorts_grows options hwt q.sorts) horders
        have hwu := Grows.wellFormed hgrow hwt
        have hcont : Continues t u := Grows.continues hgrow
        have hstart : Continues (start root) t := Grows.continues (Grows.to (compileNodes_grows hw _) hterms)
        have hsame : u.root = root := hcont.root.trans hstart.root
        -- the sorts come last, and the terms mean the same with the joins that they add
        have hden := (compileNodes_denotes hw q.nodes hterms).continues hcont hwt
        have hleaves := leaves_nodes q
        refine ⟨root, u.joins, filterOf terms,
          orders.map .order ++ if options.distinct then [.groupBy (keyColumn u.root)] else [], u.columnOf, hroot,
          by simp [Criteria.clauses], ?_, ?_, ?_, ?_⟩
        · intro clause hclause
          rcases List.mem_append.1 hclause with hclause | hclause
          · obtain ⟨order, -, rfl⟩ := List.mem_map.1 hclause
            exact .inl ⟨order, rfl⟩
          · split at hclause
            · exact .inr ⟨_, List.mem_singleton.1 hclause⟩
            · cases hclause
        · intro cond hcond path hpath
          rw [← hsame]
          rw [← hleaves] at hcond
          exact (hden.joined cond hcond path hpath).isColumnOf hwu
        · rw [← hleaves]
          exact hden.tests
        · intro ν
          rw [holds_eq, ← hden.holds ν, holds_filterOf]

theorem clausesWith_denotes_family : Reachable family.catalog familySearch ∧
    ∃ clauses filter columnOf, familySearch.clausesWith family.catalog ⟨true, true⟩ = .ok clauses ∧
      .filter filter ∈ clauses ∧ ∀ ν, filter.holds ν = familySearch.holds (Condition.holds ν columnOf) := by
  refine ⟨reachable_familySearch, ?_⟩
  have hok : (familySearch.clausesWith family.catalog ⟨true, true⟩).isOk = true := by decide +kernel
  cases h : familySearch.clausesWith family.catalog ⟨true, true⟩ with
  | error e =>
    rw [h] at hok
    cases hok
  | ok clauses =>
    obtain ⟨-, joins, filter, rest, columnOf, -, hclauses, -, -, -, hholds⟩ := clausesWith_denotes h
    refine ⟨clauses, filter, columnOf, rfl, ?_, hholds⟩
    rw [hclauses]
    exact List.mem_append_right _ List.mem_cons_self

end Search

end Criteria
