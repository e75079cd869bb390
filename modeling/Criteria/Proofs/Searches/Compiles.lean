import Criteria.Proofs.Joins.Reach
import Criteria.Proofs.Searches.Reach

/-!
# Sound conditions compile

* `compileNodes_cons_eq_ok`, `evaluate_eq_ok` and the like — what has been compiled when a step succeeds.
* `columnTerms_isOk`, `compileCondition_isOk`, `compileNodes_isOk` — a tree of sound conditions compiles into every join
  table of its root.
* `compileSorts_eq_error` — sorts fail at a name that does not resolve, and only there.
* `Search.Reachable.compiles` — so whatever has been done with a search, its sorts alone can make its evaluation fail.
-/

namespace Criteria

variable {c : Catalog} {t : JoinTable}

open JoinTable

/-! ## Terms -/

namespace Predicate

variable {p : Predicate} {column : Column}

/-- A predicate of single values is a comparison or a match. -/
theorem comparison?_or_matching? (h : p.arity = .single) :
    p.comparison?.isSome = true ∨ p.matching?.isSome = true := by
  cases p <;> first | exact .inl rfl | exact .inr rfl | cases h

theorem valueTerm_isOk {raw : String} (h : p.arity = .single) (hc : (column.type.coerce? raw).isSome = true) :
    ∃ term, p.valueTerm column raw = .ok term := by
  obtain ⟨value, hvalue⟩ := coerce_isOk (p := p).2 hc
  unfold valueTerm
  split
  · rw [hvalue]
    exact ⟨_, rfl⟩
  · rename_i hop
    have hmatching := comparison?_or_matching? h
    rw [hop] at hmatching
    obtain ⟨m, hm⟩ := Option.isSome_iff_exists.1 (hmatching.resolve_left Bool.false_ne_true)
    rw [hm]
    exact ⟨_, rfl⟩

theorem listTerm_isOk {raws : List String} (hc : ∀ raw ∈ raws, (column.type.coerce? raw).isSome = true) :
    ∃ term, p.term column (.list raws) = .ok term := by
  obtain ⟨values, hvalues⟩ : ∃ values, p.coerceAll column.type raws = .ok values :=
    collect_isOk fun raw hraw => coerce_isOk.2 (hc raw hraw)
  exact ⟨.inList column values (p == notIn), by simp only [term, hvalues]⟩

end Predicate

namespace Condition

variable {root : String} {cond : Condition}

/-- The terms of a sound condition for a column of the type of one of its attributes. -/
theorem columnTerms_isOk (h : cond.Sound c root) {column : Column} {a : AttributePath} (ha : a ∈ cond.attributes)
    (htype : column.type = a.type) : ∃ terms, cond.columnTerms column = .ok terms := by
  unfold columnTerms
  split
  · rename_i harity
    apply collect_isOk
    intro raw hraw
    apply Predicate.valueTerm_isOk harity
    rw [htype]
    exact h.coerces (by rw [harity]; nofun) a ha raw hraw
  · rename_i harity
    apply collect_isOk
    intro raws hraws
    obtain rfl := List.mem_singleton.1 hraws
    apply Predicate.listTerm_isOk
    intro raw hraw
    rw [htype]
    exact h.coerces (by rw [harity]; nofun) a ha raw hraw
  · rename_i harity
    obtain ⟨raw, rest, htexts⟩ := List.exists_cons_of_ne_nil h.texts_ne
    obtain ⟨holds, hflag⟩ := Option.isSome_iff_exists.1 (h.flags harity raw (by rw [htexts]; exact List.mem_cons_self))
    have hhead : cond.value.texts.head?.bind Flag.parse? = some holds := by
      rw [htexts, List.head?_cons, Option.bind_some, hflag]
    rw [hhead]
    exact ⟨_, rfl⟩

/-- The attributes of a sound condition are joined and give terms, one after the other. -/
theorem attributeTerms_isOk (hc : c.Named) (hw : WellFormed c t) (hroot : c.entity? t.root.name = some t.root)
    (h : cond.Sound c t.root.name) {paths : List AttributePath} (hsub : ∀ a ∈ paths, a ∈ cond.attributes) :
    ∃ u terms, cond.attributeTerms c t paths = (u, .ok terms) := by
  induction paths generalizing t with
  | nil => exact ⟨t, [], rfl⟩
  | cons path rest ih =>
    have hmem := hsub path List.mem_cons_self
    obtain ⟨u, column, hcolumn⟩ := resolve_isOk hc hw hroot (h.resolves path hmem)
    have htype : column.type = path.type := by
      rw [(resolve_eq_ok hw hcolumn).2]
      rfl
    obtain ⟨terms, hterms⟩ := columnTerms_isOk h hmem htype
    have hgrow := Grows.to (resolve_grows hw path) hcolumn
    have hsame := (Grows.continues hgrow).root
    obtain ⟨v, more, hmore⟩ := ih (Grows.wellFormed hgrow hw) (by rwa [hsame]) (by rwa [hsame])
      fun a ha => hsub a (List.mem_cons_of_mem _ ha)
    exact ⟨v, terms ++ more, by simp only [attributeTerms, hcolumn, hterms, hmore]⟩

theorem compileCondition_isOk (hc : c.Named) (hw : WellFormed c t) (hroot : c.entity? t.root.name = some t.root)
    (h : cond.Sound c t.root.name) : ∃ u term, compileCondition c cond t = (u, .ok term) := by
  obtain ⟨u, terms, hterms⟩ := attributeTerms_isOk hc hw hroot h fun _ ha => ha
  exact ⟨u, joinTerms cond.combinator terms, by simp only [compileCondition, hterms]⟩

end Condition

/-! ## Trees -/

mutual

theorem compileNode_isOk {t : JoinTable} (hc : c.Named) (hw : WellFormed c t)
    (hroot : c.entity? t.root.name = some t.root) : (node : Node) →
    (∀ cond ∈ node.leaves, cond.Sound c t.root.name) → ∃ u term, compileNode c t node = (u, .ok term)
  | .condition cond, h => by
    rw [compileNode]
    exact Condition.compileCondition_isOk hc hw hroot (h cond List.mem_cons_self)
  | .group m members, h => by
    rw [Node.leaves] at h
    obtain ⟨u, terms, hterms⟩ := compileNodes_isOk hc hw hroot members h
    exact ⟨u, .group m terms, by simp only [compileNode, hterms]⟩

/-- A tree of sound conditions compiles into every join table of its root. -/
theorem compileNodes_isOk {t : JoinTable} (hc : c.Named) (hw : WellFormed c t)
    (hroot : c.entity? t.root.name = some t.root) : (nodes : List Node) →
    (∀ cond ∈ Junction.leaves nodes, cond.Sound c t.root.name) → ∃ u terms, compileNodes c t nodes = (u, .ok terms)
  | [], _ => ⟨t, [], by rw [compileNodes]⟩
  | node :: rest, h => by
    rw [Junction.leaves] at h
    obtain ⟨u, term, hterm⟩ := compileNode_isOk hc hw hroot node fun cond hcond => h cond (List.mem_append_left _ hcond)
    have hgrow := Grows.to (compileNode_grows hw node) hterm
    have hsame := (Grows.continues hgrow).root
    obtain ⟨v, terms, hterms⟩ := compileNodes_isOk hc (Grows.wellFormed hgrow hw) (by rwa [hsame]) rest
      fun cond hcond => by
        rw [hsame]
        exact h cond (List.mem_append_right _ hcond)
    exact ⟨v, term :: terms, by simp only [compileNodes, hterm, hterms]⟩

end

/-! ## Successful compiling, step by step -/

theorem Condition.attributeTerms_cons_eq_ok {cond : Condition} {path : AttributePath} {rest : List AttributePath}
    {u : JoinTable} {terms : List Expr} (h : cond.attributeTerms c t (path :: rest) = (u, .ok terms)) :
    ∃ v column first more, t.resolve c path = (v, .ok column) ∧ cond.columnTerms column = .ok first ∧
      cond.attributeTerms c v rest = (u, .ok more) ∧ terms = first ++ more := by
  unfold attributeTerms at h
  split at h
  · cases h
  · rename_i v column hcolumn
    split at h
    · cases h
    · rename_i first hfirst
      split at h
      · cases h
      · rename_i w more hmore
        cases h
        exact ⟨v, column, first, more, hcolumn, hfirst, hmore, rfl⟩

theorem compileCondition_eq_ok {cond : Condition} {u : JoinTable} {term : Expr}
    (h : compileCondition c cond t = (u, .ok term)) :
    ∃ terms, cond.attributeTerms c t cond.attributes = (u, .ok terms) ∧ term = joinTerms cond.combinator terms := by
  unfold compileCondition at h
  split at h
  · cases h
  · rename_i v terms hterms
    cases h
    exact ⟨terms, hterms, rfl⟩

theorem compileNode_group_eq_ok {m : Combinator} {members : List Node} {u : JoinTable} {term : Expr}
    (h : compileNode c t (.group m members) = (u, .ok term)) :
    ∃ terms, compileNodes c t members = (u, .ok terms) ∧ term = .group m terms := by
  rw [compileNode] at h
  split at h
  · cases h
  · rename_i v terms hterms
    cases h
    exact ⟨terms, hterms, rfl⟩

theorem compileNodes_cons_eq_ok {node : Node} {rest : List Node} {u : JoinTable} {terms : List Expr}
    (h : compileNodes c t (node :: rest) = (u, .ok terms)) :
    ∃ v first more, compileNode c t node = (v, .ok first) ∧ compileNodes c v rest = (u, .ok more) ∧
      terms = first :: more := by
  rw [compileNodes] at h
  split at h
  · cases h
  · rename_i v first hfirst
    split at h
    · cases h
    · rename_i w more hmore
      cases h
      exact ⟨v, first, more, hfirst, hmore, rfl⟩

theorem length_compileNodes {nodes : List Node} {u : JoinTable} {terms : List Expr}
    (h : compileNodes c t nodes = (u, .ok terms)) : terms.length = nodes.length := by
  induction nodes generalizing t terms with
  | nil =>
    rw [compileNodes] at h
    cases h
    rfl
  | cons node rest ih =>
    obtain ⟨v, first, more, -, hmore, rfl⟩ := compileNodes_cons_eq_ok h
    rw [List.length_cons, List.length_cons, ih hmore]

theorem compileNodes_append_eq_ok {nodes rest : List Node} {u : JoinTable} {terms : List Expr}
    (h : compileNodes c t (nodes ++ rest) = (u, .ok terms)) :
    ∃ v first more, compileNodes c t nodes = (v, .ok first) ∧ compileNodes c v rest = (u, .ok more) ∧
      terms = first ++ more := by
  induction nodes generalizing t terms with
  | nil => exact ⟨t, [], terms, by rw [compileNodes], h, rfl⟩
  | cons node nodes ih =>
    obtain ⟨v, term, others, hterm, hothers, rfl⟩ := compileNodes_cons_eq_ok h
    obtain ⟨w, first, more, hfirst, hmore, rfl⟩ := ih hothers
    exact ⟨w, term :: first, more, by simp only [compileNodes, hterm, hfirst], hmore, rfl⟩

theorem evaluate_eq_ok {root : Entity} {base : Junction} {ors : List Junction} {sorts : List SortKey}
    {options : Options} {u : JoinTable} {clauses : List Clause}
    (h : evaluate c root base ors sorts options = (u, .ok clauses)) :
    ∃ t terms orders, compileNodes c (start root) (base ++ ors.map (Node.group .or)) = (t, .ok terms) ∧
      compileSorts c options t sorts = (u, .ok orders) ∧
      clauses = Criteria.clauses options u (filterOf terms) orders := by
  unfold evaluate at h
  split at h
  · cases h
  · rename_i t terms hterms
    split at h
    · cases h
    · rename_i v orders horders
      cases h
      exact ⟨t, terms, orders, hterms, horders, rfl⟩

/-! ## Sorts -/

/-- Sorts fail only at a name that does not resolve and is not passed over. -/
theorem compileSorts_eq_error (hc : c.Named) (hw : WellFormed c t) (hroot : c.entity? t.root.name = some t.root)
    {options : Options} {sorts : List SortKey} {u : JoinTable} {e : SearchError}
    (h : compileSorts c options t sorts = (u, .error e)) :
    ∃ sort ∈ sorts, AttributePath.resolve c t.root.name sort.name = .error e ∧
      (options.ignoreUnknownSorts && e.isDroppable) = false := by
  induction sorts generalizing t with
  | nil => cases h
  | cons sort rest ih =>
    unfold compileSorts at h
    split at h
    · rename_i e' hresolve
      split at h
      · obtain ⟨other, hother, hfails⟩ := ih hw hroot h
        exact ⟨other, List.mem_cons_of_mem _ hother, hfails⟩
      · rename_i hkept
        cases h
        exact ⟨sort, List.mem_cons_self, hresolve, by simpa using hkept⟩
    · rename_i path hresolve
      rw [← AttributePath.name_of_resolve hresolve] at hresolve
      obtain ⟨v, column, hcolumn⟩ := resolve_isOk hc hw hroot hresolve
      have hgrow := Grows.to (resolve_grows hw path) hcolumn
      have hsame := (Grows.continues hgrow).root
      simp only [hcolumn] at h
      split at h
      · rename_i w e' hrest
        cases h
        obtain ⟨other, hother, hfails⟩ := ih (Grows.wellFormed hgrow hw) (by rwa [hsame]) hrest
        rw [hsame] at hfails
        exact ⟨other, List.mem_cons_of_mem _ hother, hfails⟩
      · cases h

/-! ## Searches -/

namespace Search

variable {q : Search}

/-- The nodes of a search, all of which have to hold. -/
def nodes (q : Search) : List Node := q.base ++ q.ors.map (Node.group .or)

theorem leaves_nodes (q : Search) : Junction.leaves q.nodes = q.leaves := by
  rw [nodes, Junction.leaves_append, Junction.leaves_groups, leaves]

/-- Evaluating a search whose conditions are sound fails only at a sort. -/
theorem evaluate_eq_error (hc : c.Named) {root : Entity} (hroot : c.entity? root.name = some root)
    (h : ∀ cond ∈ q.leaves, cond.Sound c root.name) {options : Options} {e : SearchError}
    (he : (evaluate c root q.base q.ors q.sorts options).2 = .error e) :
    ∃ sort ∈ q.sorts, AttributePath.resolve c root.name sort.name = .error e ∧
      (options.ignoreUnknownSorts && e.isDroppable) = false := by
  have hw := wellFormed_start c root
  rw [← leaves_nodes] at h
  obtain ⟨u, terms, hterms⟩ := compileNodes_isOk hc hw hroot q.nodes h
  have hgrow := Grows.to (compileNodes_grows hw q.nodes) hterms
  have hsame : u.root = root := (Grows.continues hgrow).root
  unfold evaluate at he
  rw [nodes] at hterms
  simp only [hterms] at he
  split at he
  · rename_i v e' hsorts
    cases he
    have hfails := compileSorts_eq_error hc (Grows.wellFormed hgrow hw) (by rwa [hsame]) hsorts
    rwa [hsame] at hfails
  · cases he

/-- A search without clauses, or without a query, has been evaluated without success. -/
theorem evaluate_of_error {root : Entity} (hroot : c.entity? q.root = some root) {options : Options} {e : SearchError}
    (h : q.clausesWith c options = .error e ∨ q.selectWith c options = .error e) :
    (evaluate c root q.base q.ors q.sorts options).2 = .error e := by
  rcases h with h | h
  · unfold clausesWith at h
    rwa [hroot] at h
  · unfold selectWith at h
    simp only [hroot] at h
    split at h
    · rename_i he
      cases h
      exact he
    · cases h

/-- Whatever has been done with a search, its conditions are sound and compile after any others, and it has clauses and
a query unless the name of a sort does not resolve. -/
theorem Reachable.compiles (s : Schema) (h : Reachable s.catalog q) :
    (∀ cond ∈ q.leaves, cond.Sound s.catalog q.root) ∧
      (∀ root t, s.catalog.entity? q.root = some root → JoinTable.Reachable s.catalog root t →
        (∀ cond ∈ q.leaves, ∃ u term, compileCondition s.catalog cond t = (u, .ok term)) ∧
          ∃ u terms, compileNodes s.catalog t q.nodes = (u, .ok terms)) ∧
      ∀ options e, q.clausesWith s.catalog options = .error e ∨ q.selectWith s.catalog options = .error e →
        ∃ sort ∈ q.sorts, AttributePath.resolve s.catalog q.root sort.name = .error e ∧
          (options.ignoreUnknownSorts && e.isDroppable) = false := by
  have hc : s.catalog.Named := s.named_catalog
  have hsound := h.sound
  refine ⟨hsound, ?_, ?_⟩
  · intro root t hroot ht
    have hsame : t.root = root := ht.grows.continues.root
    have hname : q.root = t.root.name := by rw [hsame, hc hroot]
    have hentity : s.catalog.entity? t.root.name = some t.root := by rw [← hname, hsame, hroot]
    rw [hname] at hsound
    constructor
    · intro cond hcond
      exact Condition.compileCondition_isOk hc ht.wellFormed hentity (hsound cond hcond)
    · rw [← leaves_nodes] at hsound
      exact compileNodes_isOk hc ht.wellFormed hentity q.nodes hsound
  · intro options e he
    obtain ⟨root, hroot⟩ := h.root
    have hname : root.name = q.root := hc hroot
    rw [← hname] at hsound ⊢
    exact evaluate_eq_error hc (by rw [hname, hroot]) hsound (evaluate_of_error hroot he)

/-! ## A search with an unknown sort -/

/-- People with children. -/
def family : Schema :=
  Schema.empty.register ((((Entity.new "Person" "people").column "name" .string).column "salary" .integer).hasMany
    "children" "Person" "parent_id")

/-- The entity of people. -/
def person : Entity := (family.catalog.entity? "Person").get (by decide +kernel)

/-- A search for people who are named, or have children named, in one of two ways, and who earn more than five. -/
def familyBuilt : Except SearchError Search :=
  build family.catalog "Person" .default
    [("children_name_or_name_eq_any", .array [.string "Ernie", .string "Bert"]),
      ("o", .object [("salary_gt", .string "5")])]

/-- Those who are paid at all are found too, and come in an order that there is not. -/
def familySearch : Search :=
  ((familyBuilt.toOption.get (by decide +kernel)).perform family.catalog
    (.orSet 0 "salary_not_null" (.scalar "yes"))).perform family.catalog (.setSorts (.string "shoe"))

theorem reachable_familySearch : Reachable family.catalog familySearch :=
  .perform (.perform (Reachable.of_isSome _) _) _

theorem Reachable.compiles_family :
    Reachable family.catalog familySearch ∧ familySearch.leaves.length = 3 ∧
      (∀ cond ∈ familySearch.leaves, cond.Sound family.catalog familySearch.root) ∧
      ∃ e, familySearch.clausesWith family.catalog familySearch.options = .error e ∧
        ∃ sort ∈ familySearch.sorts, AttributePath.resolve family.catalog familySearch.root sort.name = .error e := by
  obtain ⟨hsound, -, herror⟩ := Reachable.compiles family reachable_familySearch
  refine ⟨reachable_familySearch, by decide +kernel, hsound, ?_⟩
  have hfails : (familySearch.clausesWith family.catalog familySearch.options).isOk = false := by decide +kernel
  cases he : familySearch.clausesWith family.catalog familySearch.options with
  | ok clauses =>
    rw [he] at hfails
    cases hfails
  | error e =>
    obtain ⟨sort, hsort, hresolve, -⟩ := herror _ e (.inl he)
    exact ⟨e, rfl, sort, hsort, hresolve⟩

end Search

end Criteria
