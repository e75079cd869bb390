import Criteria.Proofs.Searches.Meaning
import Criteria.Proofs.Sql.Templates
import Mathlib.Data.List.Forall2

/-!
# Values do not steer queries

* `Predicate.template` — the template of a term: it depends on the column, and on how many values there are.
* `Condition.alike`, `Node.alike`, `Search.Alike` — what differs in its values only.
* `compileNodes_alike` — nodes that are alike give the same joins, and terms of the same templates.
* `Search.Reachable.selectWith_alike` — searches that are alike have no query, or queries with one text for each backend
  and with values of the same kinds.
-/

namespace Criteria

open JoinTable

/-! ## Templates of terms -/

/-- The kind of the values in a column of a type. -/
def ColumnType.valueKind : ColumnType → BindValue.Kind
  | .integer => .int
  | .float | .decimal => .float
  | .boolean => .bool
  | .string | .text | .date | .datetime | .time => .text

theorem ColumnType.kind_of_coerce? {type : ColumnType} {raw : String} {value : BindValue}
    (h : type.coerce? raw = some value) : value.kind = type.valueKind := by
  cases type <;> simp only [coerce?, Option.map_eq_some_iff, Option.some.injEq] at h
  case string | text | date | datetime | time =>
    rw [← h]
    rfl
  all_goals
    obtain ⟨_, -, rfl⟩ := h
    rfl

namespace Predicate

variable {p : Predicate} {column : Column}

/-- The template of what a predicate says about a column. Of texts it has no more than their number. -/
def template (p : Predicate) (column : Column) : Operand → Expr
  | .value _ =>
    match p.comparison? with
    | some op => .compare column op column.type.valueKind.plain
    | none =>
      match p.matching? with
      | some m => .like column "" m.negated m.escaped
      | none => .always
  | .list raws => .inList column (List.replicate raws.length column.type.valueKind.plain) (p == notIn)
  | .flag holds => (p.flagTerm column holds).template

theorem kind_of_coerce {raw : String} {type : ColumnType} {value : BindValue} (h : p.coerce raw type = .ok value) :
    value.kind = type.valueKind := by
  unfold coerce at h
  split at h
  · rename_i v hv
    cases h
    exact ColumnType.kind_of_coerce? hv
  · cases h

theorem template_term {operand : Operand} {e : Expr} (h : p.term column operand = .ok e) :
    e.template = p.template column operand := by
  cases operand with
  | value raw =>
    rw [term, valueTerm] at h
    rw [template]
    cases hop : p.comparison? with
    | some op =>
      simp only [hop] at h ⊢
      cases hvalue : p.coerce raw column.type with
      | error e => simp [hvalue] at h
      | ok value =>
        simp only [hvalue, Except.ok.injEq] at h
        rw [← h, Expr.template, kind_of_coerce hvalue]
    | none =>
      simp only [hop] at h ⊢
      cases hm : p.matching? with
      | none => simp [hm] at h
      | some m =>
        simp only [hm, Except.ok.injEq] at h ⊢
        rw [← h, Expr.template]
  | list raws =>
    simp only [term] at h
    split at h
    · rename_i values hvalues
      cases h
      have hplain : values.map (fun value => value.kind.plain) =
          List.replicate raws.length column.type.valueKind.plain := by
        rw [List.eq_replicate_iff, List.length_map, length_collect hvalues]
        refine ⟨rfl, ?_⟩
        intro plain hmem
        obtain ⟨value, hvalue, rfl⟩ := List.mem_map.1 hmem
        obtain ⟨raw, -, hraw⟩ := exists_of_mem_collect hvalues hvalue
        rw [kind_of_coerce hraw]
      rw [Expr.template, hplain, template]
    · cases h
  | flag holds =>
    cases h
    rfl

end Predicate

theorem template_joinTerms (m : Combinator) (terms : List Expr) :
    (joinTerms m terms).template = joinTerms m (Expr.allTemplates terms) := by
  match terms with
  | [] | [_] | _ :: _ :: _ => rfl

theorem template_filterOf (terms : List Expr) : (filterOf terms).template = filterOf (Expr.allTemplates terms) := by
  cases terms <;> rfl

/-! ## Conditions -/

namespace Condition

variable {c : Catalog} {cond other : Condition} {t u u' : JoinTable} {terms terms' : List Expr}

/-- Two conditions that differ in their values only, of which they have equally many. A flag is no such value: it is
part of the test. -/
def alike (cond other : Condition) : Bool :=
  decide (cond.key = other.key ∧ cond.attributes = other.attributes ∧ cond.predicate = other.predicate ∧
    cond.combinator = other.combinator ∧ cond.value.texts.length = other.value.texts.length ∧
    (cond.predicate.arity = .flag → cond.value = other.value))

theorem alike_iff : cond.alike other = true ↔ cond.key = other.key ∧ cond.attributes = other.attributes ∧
    cond.predicate = other.predicate ∧ cond.combinator = other.combinator ∧
    cond.value.texts.length = other.value.texts.length ∧
    (cond.predicate.arity = .flag → cond.value = other.value) :=
  decide_eq_true_iff

/-- The templates of the terms for a column come from the operands, one by one. -/
theorem templates_columnTerms {column : Column} (h : cond.columnTerms column = .ok terms) :
    Expr.allTemplates terms = cond.operands.map (cond.predicate.template column) := by
  have hterms := columnTerms_eq_ok h
  clear h
  rw [Expr.allTemplates_eq_map]
  generalize cond.operands = operands at hterms ⊢
  induction operands generalizing terms with
  | nil =>
    obtain rfl := List.map_eq_nil_iff.1 hterms.symm
    rfl
  | cons operand rest ih =>
    obtain ⟨term, more, rfl, hterm, hmore⟩ := List.map_eq_cons_iff.1 hterms.symm
    rw [List.map_cons, List.map_cons, Predicate.template_term hterm.symm, ih hmore.symm]

theorem templates_alike (h : cond.alike other = true) (column : Column) :
    cond.operands.map (cond.predicate.template column) = other.operands.map (other.predicate.template column) := by
  obtain ⟨-, -, hpredicate, -, hcount, hflag⟩ := alike_iff.1 h
  unfold operands
  rw [← hpredicate]
  cases harity : cond.predicate.arity with
  | single =>
    -- no value gets into the template of a single one
    rw [List.map_map, List.map_map]
    change cond.value.texts.map (fun _ => cond.predicate.template column (.value "")) =
      other.value.texts.map fun _ => cond.predicate.template column (.value "")
    rw [List.map_const', List.map_const', hcount]
  | list =>
    simp only [List.map_singleton, Predicate.template]
    rw [hcount]
  | flag => rw [hflag harity]

theorem attributeTerms_alike (h : cond.alike other = true) {paths : List AttributePath}
    (hcond : cond.attributeTerms c t paths = (u, .ok terms))
    (hother : other.attributeTerms c t paths = (u', .ok terms')) :
    u = u' ∧ Expr.allTemplates terms = Expr.allTemplates terms' := by
  induction paths generalizing t terms terms' with
  | nil =>
    cases hcond
    cases hother
    exact ⟨rfl, rfl⟩
  | cons path rest ih =>
    obtain ⟨v, column, first, more, hcolumn, hfirst, hmore, rfl⟩ := attributeTerms_cons_eq_ok hcond
    obtain ⟨v', column', first', more', hcolumn', hfirst', hmore', rfl⟩ := attributeTerms_cons_eq_ok hother
    -- both resolve the attribute in the same table
    rw [hcolumn] at hcolumn'
    cases hcolumn'
    obtain ⟨hsame, hrest⟩ := ih hmore hmore'
    refine ⟨hsame, ?_⟩
    rw [Expr.allTemplates_append, Expr.allTemplates_append, hrest, templates_columnTerms hfirst,
      templates_columnTerms hfirst', templates_alike h]

theorem compileCondition_alike (h : cond.alike other = true) {term term' : Expr}
    (hcond : compileCondition c cond t = (u, .ok term)) (hother : compileCondition c other t = (u', .ok term')) :
    u = u' ∧ term.template = term'.template := by
  obtain ⟨-, hattributes, -, hcombinator, -⟩ := alike_iff.1 h
  obtain ⟨terms, hterms, rfl⟩ := compileCondition_eq_ok hcond
  obtain ⟨terms', hterms', rfl⟩ := compileCondition_eq_ok hother
  rw [← hattributes] at hterms'
  obtain ⟨hsame, htemplates⟩ := attributeTerms_alike h hterms hterms'
  refine ⟨hsame, ?_⟩
  rw [template_joinTerms, template_joinTerms, htemplates, hcombinator]

end Condition

/-! ## Trees -/

mutual

/-- Two trees of one form, whose conditions are alike. -/
def Node.alike : Node → Node → Bool
  | .condition cond, .condition other => cond.alike other
  | .group m members, .group n others => m == n && Node.allAlike members others
  | _, _ => false

/-- As many nodes, alike in order. -/
def Node.allAlike : List Node → List Node → Bool
  | [], [] => true
  | node :: rest, other :: others => Node.alike node other && Node.allAlike rest others
  | _, _ => false

end

theorem Node.allAlike_append {nodes others more more' : List Node} (h : allAlike nodes others = true)
    (hmore : allAlike more more' = true) : allAlike (nodes ++ more) (others ++ more') = true := by
  induction nodes generalizing others with
  | nil =>
    cases others with
    | nil => exact hmore
    | cons other others => cases h
  | cons node rest ih =>
    cases others with
    | nil => cases h
    | cons other others =>
      rw [allAlike, Bool.and_eq_true] at h
      rw [List.cons_append, List.cons_append, allAlike, Bool.and_eq_true]
      exact ⟨h.1, ih h.2⟩

theorem Node.allAlike_groups {m : Combinator} {groups groups' : List Junction}
    (h : List.Forall₂ (fun j j' => allAlike j j' = true) groups groups') :
    allAlike (groups.map (Node.group m)) (groups'.map (Node.group m)) = true := by
  induction h with
  | nil => rfl
  | cons h _ ih => simp only [List.map_cons, allAlike, alike, h, ih, beq_self_eq_true, Bool.and_self]

variable {c : Catalog}

mutual

theorem compileNode_alike {t u u' : JoinTable} {term term' : Expr} : (node other : Node) → node.alike other = true →
    compileNode c t node = (u, .ok term) → compileNode c t other = (u', .ok term') →
    u = u' ∧ term.template = term'.template
  | .condition cond, .condition other, h, hnode, hother => by
    rw [compileNode] at hnode hother
    exact Condition.compileCondition_alike h hnode hother
  | .group m members, .group n others, h, hnode, hother => by
    rw [Node.alike, Bool.and_eq_true] at h
    obtain ⟨terms, hterms, rfl⟩ := compileNode_group_eq_ok hnode
    obtain ⟨terms', hterms', rfl⟩ := compileNode_group_eq_ok hother
    obtain ⟨hsame, htemplates⟩ := compileNodes_alike members others h.2 hterms hterms'
    refine ⟨hsame, ?_⟩
    rw [Expr.template, Expr.template, htemplates, eq_of_beq h.1]
  | .condition _, .group _ _, h, _, _ => by cases h
  | .group _ _, .condition _, h, _, _ => by cases h

/-- What nodes compile to is the same for nodes that are alike, but for the values. -/
theorem compileNodes_alike {t u u' : JoinTable} {terms terms' : List Expr} : (nodes others : List Node) →
    Node.allAlike nodes others = true → compileNodes c t nodes = (u, .ok terms) →
    compileNodes c t others = (u', .ok terms') → u = u' ∧ Expr.allTemplates terms = Expr.allTemplates terms'
  | [], [], _, hnodes, hothers => by
    rw [compileNodes] at hnodes hothers
    cases hnodes
    cases hothers
    exact ⟨rfl, rfl⟩
  | node :: rest, other :: others, h, hnodes, hothers => by
    rw [Node.allAlike, Bool.and_eq_true] at h
    obtain ⟨v, first, more, hfirst, hmore, rfl⟩ := compileNodes_cons_eq_ok hnodes
    obtain ⟨v', first', more', hfirst', hmore', rfl⟩ := compileNodes_cons_eq_ok hothers
    obtain ⟨rfl, htemplate⟩ := compileNode_alike node other h.1 hfirst hfirst'
    obtain ⟨hsame, hrest⟩ := compileNodes_alike rest others h.2 hmore hmore'
    refine ⟨hsame, ?_⟩
    rw [Expr.allTemplates, Expr.allTemplates, htemplate, hrest]
  | [], _ :: _, h, _, _ => by cases h
  | _ :: _, [], h, _, _ => by cases h

end

/-! ## Queries -/

namespace Select

variable {q : Select}

theorem addAll_append (clauses more : List Clause) : q.addAll (clauses ++ more) = (q.addAll clauses).addAll more :=
  List.foldl_append

theorem addAll_joins (joins : List Join) : q.addAll (joins.map .join) = { q with joins := q.joins ++ joins } := by
  induction joins generalizing q with
  | nil => simp [addAll]
  | cons j rest ih =>
    change (q.add (.join j)).addAll (rest.map .join) = _
    simp [ih, add]

theorem addAll_orders (orders : List Order) :
    q.addAll (orders.map .order) = { q with orders := q.orders ++ orders } := by
  induction orders generalizing q with
  | nil => simp [addAll]
  | cons o rest ih =>
    change (q.add (.order o)).addAll (rest.map .order) = _
    simp [ih, add]

theorem addAll_clauses (table : String) (options : Options) (t : JoinTable) (filter : Expr) (orders : List Order) :
    (all table).addAll (clauses options t filter orders) =
      ⟨table, t.joins, [filter], orders, if options.distinct then some (keyColumn t.root) else none⟩ := by
  rw [clauses, addAll_append, addAll_append, addAll_append, addAll_joins, addAll_orders]
  split <;> rfl

end Select

namespace Search

variable {q q' : Search}

/-- Two searches that differ in the values of their conditions only. -/
structure Alike (q q' : Search) : Prop where
  root : q.root = q'.root
  settings : q.settings = q'.settings
  base : Node.allAlike q.base q'.base = true
  ors : List.Forall₂ (fun j j' => Node.allAlike j j' = true) q.ors q'.ors
  sorts : q.sorts = q'.sorts

theorem Alike.nodes (h : q.Alike q') : Node.allAlike q.nodes q'.nodes = true :=
  Node.allAlike_append h.base (Node.allAlike_groups h.ors)

/-- The query of a search whose nodes have been compiled. -/
theorem selectWith_eq {root : Entity} (hroot : c.entity? q.root = some root) {options : Options} {t : JoinTable}
    {terms : List Expr} (h : compileNodes c (start root) q.nodes = (t, .ok terms)) :
    q.selectWith c options =
      match compileSorts c options t q.sorts with
      | (_, .error e) => .error e
      | (u, .ok orders) => .ok ⟨root.table, u.joins, [filterOf terms], orders,
          if options.distinct then some (keyColumn u.root) else none⟩ := by
  rw [nodes] at h
  simp only [selectWith, hroot, evaluate, h]
  cases compileSorts c options t q.sorts with
  | mk u result =>
    cases result with
    | error e => rfl
    | ok orders => simp only [Select.addAll_clauses]

/-- Values do not get into the text of a query, nor do they shape it. Two searches that differ in the values of their
conditions only both fail alike, or have queries with the same text for each backend, and with values of the same kinds
in the same places. -/
theorem Reachable.selectWith_alike (s : Schema) (h : Reachable s.catalog q) (h' : Reachable s.catalog q')
    (hq : q.Alike q') (options : Options) :
    (∃ e, q.selectWith s.catalog options = .error e ∧ q'.selectWith s.catalog options = .error e) ∨
      ∃ query query', q.selectWith s.catalog options = .ok query ∧ q'.selectWith s.catalog options = .ok query' ∧
        (∀ b : Backend, query.sql b = query'.sql b) ∧
        query.bindings.map BindValue.kind = query'.bindings.map BindValue.kind := by
  have hc : s.catalog.Named := s.named_catalog
  obtain ⟨root, hroot⟩ := h.root
  have hroot' : s.catalog.entity? q'.root = some root := by rw [← hq.root, hroot]
  have hname : root.name = q.root := hc hroot
  have hentity : s.catalog.entity? root.name = some root := by rw [hname, hroot]
  have hw := wellFormed_start s.catalog root
  -- the conditions of both are sound, so that all nodes compile
  have hsound := h.sound
  have hsound' := h'.sound
  rw [← hname, ← leaves_nodes] at hsound
  rw [← hq.root, ← hname, ← leaves_nodes] at hsound'
  obtain ⟨t, terms, hterms⟩ := compileNodes_isOk hc hw hentity q.nodes hsound
  obtain ⟨t', terms', hterms'⟩ := compileNodes_isOk hc hw hentity q'.nodes hsound'
  obtain ⟨rfl, htemplates⟩ := compileNodes_alike q.nodes q'.nodes hq.nodes hterms hterms'
  -- the sorts are the same, and see the same joins
  rw [selectWith_eq hroot hterms, selectWith_eq hroot' hterms', ← hq.sorts]
  cases compileSorts s.catalog options t q.sorts with
  | mk u result =>
    cases result with
    | error e => exact .inl ⟨e, rfl, rfl⟩
    | ok orders =>
      refine .inr ⟨_, _, rfl, rfl, ?_⟩
      have hfilter : (filterOf terms).template = (filterOf terms').template := by
        rw [template_filterOf, template_filterOf, htemplates]
      constructor
      · intro b
        apply Select.sql_of_template
        simp only [Select.template, Expr.allTemplates, hfilter]
      · apply Select.kinds_of_template
        simp only [Select.template, Expr.allTemplates, hfilter]

/-- A search of the family by parts of names, of people or of their children, and by salaries. -/
def namedAndPaid (names salaries : List String) : Except SearchError Search :=
  build family.catalog "Person" .default
    [("children_name_or_name_cont_any", .array (names.map .string)), ("salary_in", .array (salaries.map .string)),
      ("children_name_null", .string "no"), ("s", .string "children_salary desc")]

/-- It asks for plain names. -/
def plainNames : Search := (namedAndPaid ["Ernie", "Bert"] ["1", "2"]).toOption.get (by decide +kernel)

/-- It asks for texts that would end a literal. -/
def quotedNames : Search := (namedAndPaid ["' OR 1=1 --", "%\\"] ["-30", " 4 "]).toOption.get (by decide +kernel)

theorem Reachable.selectWith_alike_names :
    Reachable family.catalog plainNames ∧ Reachable family.catalog quotedNames ∧ plainNames.Alike quotedNames ∧
      ∃ query query', plainNames.select family.catalog = .ok query ∧ quotedNames.select family.catalog = .ok query' ∧
        query.bindings.length = 6 ∧ query.bindings ≠ query'.bindings ∧ (∀ b : Backend, query.sql b = query'.sql b) ∧
        query.bindings.map BindValue.kind = query'.bindings.map BindValue.kind := by
  have h : Reachable family.catalog plainNames := .of_isSome _
  have h' : Reachable family.catalog quotedNames := .of_isSome _
  have hfields : plainNames.root = quotedNames.root ∧ plainNames.settings = quotedNames.settings ∧
      Node.allAlike plainNames.base quotedNames.base = true ∧
      List.Forall₂ (fun j j' => Node.allAlike j j' = true) plainNames.ors quotedNames.ors ∧
      plainNames.sorts = quotedNames.sorts ∧
      (plainNames.select family.catalog).toOption.map (fun query => query.bindings.length) = some 6 ∧
      (plainNames.select family.catalog).toOption.map Select.bindings ≠
        (quotedNames.select family.catalog).toOption.map Select.bindings := by decide +kernel
  obtain ⟨hroot, hsettings, hbase, hors, hsorts, hbindings⟩ := hfields
  have halike : plainNames.Alike quotedNames := ⟨hroot, hsettings, hbase, hors, hsorts⟩
  refine ⟨h, h', halike, ?_⟩
  rcases Reachable.selectWith_alike family h h' halike plainNames.options with ⟨e, he, -⟩ |
    ⟨query, query', hquery, hquery', hsql, hkinds⟩
  · rw [select, he] at hbindings
    cases hbindings.1
  · have hsame : quotedNames.select family.catalog = .ok query' := by
      rw [select, options, ← halike.settings]
      exact hquery'
    rw [select, hquery, hsame] at hbindings
    refine ⟨query, query', hquery, hsame, ?_, ?_, hsql, hkinds⟩
    · simpa [Except.toOption] using hbindings.1
    · simpa [Except.toOption] using hbindings.2

end Search

end Criteria
