import Criteria.Proofs.Searches.Values

/-!
# The bind values of a search

* `Predicate.bound?`, `Condition.bound` — what a condition binds: that depends on its predicate, the types of its
  attributes and its texts.
* `allBindings_columnTerms`, `allBindings_attributeTerms` — the terms of a condition bind that, attribute by attribute.
* `bindings_compileNode` — a tree binds what its conditions bind, depth first.
* `Search.bindings_selectWith` — so does the query of a search: base first, then the or-groups.
-/

namespace Criteria

open JoinTable

variable {c : Catalog} {t u : JoinTable}

/-! ## Conditions -/

/-- What a predicate binds for one text: the pattern of a match, or the value that the text writes in the column. -/
def Predicate.bound? (p : Predicate) (type : ColumnType) (raw : String) : Option BindValue :=
  match p with
  | .matching | .notMatching => some (.text raw)
  | .cont | .notCont => some (.text ("%" ++ escapePattern raw ++ "%"))
  | .start | .notStart => some (.text (escapePattern raw ++ "%"))
  | .ending | .notEnding => some (.text ("%" ++ escapePattern raw))
  | _ => type.coerce? raw

/-- What a condition binds for a column of a type. Of the flags, those that ask for an empty text bind it. -/
def Condition.boundFor (cond : Condition) (type : ColumnType) : List (Option BindValue) :=
  if cond.predicate.arity = .flag then
    if cond.predicate = .present ∨ cond.predicate = .blank then [some (.text "")] else []
  else cond.value.texts.map (cond.predicate.bound? type)

/-- What a condition binds, attribute by attribute. -/
def Condition.bound (cond : Condition) : List (Option BindValue) :=
  cond.attributes.flatMap fun path => cond.boundFor path.type

namespace Predicate

variable {p : Predicate} {column : Column} {e : Expr}

theorem bound?_of_comparison? {op : Comparison} (h : p.comparison? = some op) (type : ColumnType) (raw : String) :
    p.bound? type raw = type.coerce? raw := by
  cases p <;> first | rfl | cases h

theorem bound?_of_matching? {m : Matching} (h : p.matching? = some m) (type : ColumnType) (raw : String) :
    p.bound? type raw = some (.text (m.pattern raw)) := by
  cases p <;> cases h <;> rfl

theorem coerce_eq_ok {raw : String} {type : ColumnType} {value : BindValue} (h : p.coerce raw type = .ok value) :
    type.coerce? raw = some value := by
  unfold coerce at h
  split at h
  · rename_i v hv
    cases h
    exact hv
  · cases h

theorem bindings_valueTerm {raw : String} (h : p.valueTerm column raw = .ok e) :
    e.bindings.map some = [p.bound? column.type raw] := by
  unfold valueTerm at h
  split at h
  · rename_i op hop
    split at h
    · rename_i value hvalue
      cases h
      rw [bound?_of_comparison? hop, coerce_eq_ok hvalue]
      rfl
    · cases h
  · split at h
    · rename_i m hm
      cases h
      rw [bound?_of_matching? hm]
      rfl
    · cases h

theorem bindings_listTerm {raws : List String} (hp : p.arity = .list) (h : p.term column (.list raws) = .ok e) :
    e.bindings.map some = raws.map (p.bound? column.type) := by
  have hbound : p.bound? column.type = column.type.coerce? := by
    funext raw
    cases p <;> first | rfl | cases hp
  simp only [term] at h
  split at h
  · rename_i values hvalues
    cases h
    rw [Expr.bindings, hbound]
    exact map_collect hvalues fun raw value hvalue => (coerce_eq_ok hvalue).symm
  · cases h

theorem bindings_flagTerm (p : Predicate) (column : Column) (holds : Bool) :
    (p.flagTerm column holds).bindings = if p = .present ∨ p = .blank then [.text ""] else [] := by
  cases p <;> cases holds <;> simp [flagTerm, holdsTerm, opposite, Expr.bindings, Expr.allBindings]

end Predicate

/-! ## Compiled trees -/

theorem allBindings_append (terms more : List Expr) :
    Expr.allBindings (terms ++ more) = Expr.allBindings terms ++ Expr.allBindings more := by
  simp [Expr.allBindings_eq_flatMap]

theorem bindings_joinTerms (m : Combinator) (terms : List Expr) :
    (joinTerms m terms).bindings = Expr.allBindings terms := by
  match terms with
  | [] | _ :: _ :: _ => rfl
  | [term] => simp [joinTerms, Expr.allBindings]

theorem bindings_filterOf (terms : List Expr) : (filterOf terms).bindings = Expr.allBindings terms := by
  cases terms <;> rfl

namespace Condition

variable {cond : Condition} {terms : List Expr}

theorem allBindings_columnTerms {column : Column} (h : cond.columnTerms column = .ok terms) :
    (Expr.allBindings terms).map some = cond.boundFor column.type := by
  rw [Expr.allBindings_eq_flatMap, List.map_flatMap, List.flatMap_def]
  unfold columnTerms at h
  unfold boundFor
  split at h
  · rename_i harity
    rw [map_collect h fun raw e he => Predicate.bindings_valueTerm he]
    rw [← List.flatMap_def, ← List.map_eq_flatMap]
    simp [harity]
  · rename_i harity
    rw [map_collect h fun raws e he => Predicate.bindings_listTerm harity he]
    simp [harity]
  · rename_i harity
    split at h
    · cases h
    · rename_i holds hflag
      cases h
      simp only [List.map_cons, List.map_nil, Predicate.bindings_flagTerm, harity]
      split <;> simp

theorem allBindings_attributeTerms {paths : List AttributePath} (h : cond.attributeTerms c t paths = (u, .ok terms)) :
    (Expr.allBindings terms).map some = paths.flatMap fun path => cond.boundFor path.type := by
  induction paths generalizing t terms with
  | nil =>
    cases h
    rfl
  | cons path rest ih =>
    obtain ⟨v, column, first, more, hcolumn, hfirst, hmore, rfl⟩ := attributeTerms_cons_eq_ok h
    have htype : column.type = path.type := by
      unfold resolve at hcolumn
      split at hcolumn <;> cases hcolumn
      rfl
    rw [allBindings_append, List.map_append, allBindings_columnTerms hfirst, ih hmore, htype, List.flatMap_cons]

end Condition

mutual

theorem bindings_compileNode {t u : JoinTable} {term : Expr} : (node : Node) → compileNode c t node = (u, .ok term) →
    term.bindings.map some = node.leaves.flatMap Condition.bound
  | .condition cond, h => by
    rw [compileNode] at h
    obtain ⟨terms, hterms, rfl⟩ := compileCondition_eq_ok h
    rw [bindings_joinTerms, Condition.allBindings_attributeTerms hterms, Node.leaves, List.flatMap_singleton]
    rfl
  | .group m members, h => by
    obtain ⟨terms, hterms, rfl⟩ := compileNode_group_eq_ok h
    exact allBindings_compileNodes members hterms

/-- Nodes bind what their conditions bind, depth first. -/
theorem allBindings_compileNodes {t u : JoinTable} {terms : List Expr} : (nodes : List Node) →
    compileNodes c t nodes = (u, .ok terms) →
    (Expr.allBindings terms).map some = (Junction.leaves nodes).flatMap Condition.bound
  | [], h => by
    rw [compileNodes] at h
    cases h
    rfl
  | node :: rest, h => by
    obtain ⟨v, first, more, hfirst, hmore, rfl⟩ := compileNodes_cons_eq_ok h
    rw [Expr.allBindings, List.map_append, bindings_compileNode node hfirst, allBindings_compileNodes rest hmore,
      Junction.leaves, List.flatMap_append]

end

/-! ## Queries -/

namespace Search

variable {q : Search} {options : Options}

theorem filters_selectWith {query : Select} (h : q.selectWith c options = .ok query) :
    ∃ root t terms, compileNodes c (start root) q.nodes = (t, .ok terms) ∧ query.filters = [filterOf terms] := by
  unfold selectWith at h
  split at h
  · cases h
  · rename_i root hroot
    cases hevaluate : evaluate c root q.base q.ors q.sorts options with
    | mk u result =>
      rw [hevaluate] at h
      cases result with
      | error e => cases h
      | ok clauses =>
        obtain ⟨t, terms, orders, hterms, -, rfl⟩ := evaluate_eq_ok hevaluate
        simp only [Select.addAll_clauses] at h
        cases h
        exact ⟨root, t, terms, hterms, rfl⟩

/-- The bind values of a query are what the conditions of its search bind, in depth-first order, the base first: nothing
else of the search or of the options binds a value. -/
theorem bindings_selectWith {query : Select} (h : q.selectWith c options = .ok query) :
    query.bindings.map some = q.leaves.flatMap Condition.bound := by
  obtain ⟨root, t, terms, hterms, hfilters⟩ := filters_selectWith h
  rw [Select.bindings, hfilters, Expr.allBindings, Expr.allBindings, List.append_nil, bindings_filterOf,
    allBindings_compileNodes q.nodes hterms, leaves_nodes]

/-- A search of the family with conditions of every kind, in the base, in a group of it and in an or-group. -/
def mixedBuilt : Except SearchError Search :=
  build family.catalog "Person" .default
    [("children_name_or_name_cont_any", .array [.string "a%", .string "b"]), ("s", .string "children_salary desc"),
      ("o", .object [("name_blank", .string "no"), ("salary_gt", .string " 05 ")]),
      ("g", .object [("salary_not_in", .array [.string "1", .string "2"]), ("salary_null", .string "no")])]

def mixedSearch : Search := mixedBuilt.toOption.get (by decide +kernel)

theorem bindings_selectWith_mixed : Reachable family.catalog mixedSearch ∧
    ∃ query, mixedSearch.selectWith family.catalog ⟨true, false⟩ = .ok query ∧ query.orders.length = 1 ∧
      query.joins.length = 1 ∧ query.bindings = [.text "%a\\%%", .text "%b%", .text "%a\\%%", .text "%b%", .int 1, .int 2,
        .text "", .int 5] := by
  refine ⟨.of_isSome _, ?_⟩
  have hshape : (mixedSearch.selectWith family.catalog ⟨true, false⟩).toOption.map
      (fun query => (query.orders.length, query.joins.length)) = some (1, 1) := by decide +kernel
  cases h : mixedSearch.selectWith family.catalog ⟨true, false⟩ with
  | error e =>
    rw [h] at hshape
    cases hshape
  | ok query =>
    have hbound : mixedSearch.leaves.flatMap Condition.bound = ([.text "%a\\%%", .text "%b%", .text "%a\\%%",
        .text "%b%", .int 1, .int 2, .text "", .int 5] : List BindValue).map some := by decide +kernel
    have hbindings := bindings_selectWith h
    rw [hbound] at hbindings
    rw [h] at hshape
    simp only [Except.toOption, Option.map_some, Option.some.injEq, Prod.mk.injEq] at hshape
    exact ⟨query, rfl, hshape.1, hshape.2, (List.map_inj_right fun _ _ => Option.some.inj).1 hbindings⟩

end Search

end Criteria
