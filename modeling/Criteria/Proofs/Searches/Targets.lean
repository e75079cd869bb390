import Criteria.Proofs.Searches.Emitted

/-!
# Queries handed to a target

* `Target` — what takes the parts of a query one by one; `Target.select` is the query itself.
* `evaluateInto` — an evaluation that hands the parts to a target once everything is compiled;
  `evaluateInto_eq`, `selectWith_eq_evaluateInto`: the parts are the clauses of the evaluation.
* `isKnown` — the sorts that a lenient evaluation does not drop; `compileSorts_known`: it is the strict evaluation of
  those.
* `OrdersBy`, `compileSorts_orders` — there is an order for each sort that is kept, in its direction and place.
* `evaluateInto_calls` — a target receives everything or nothing, and a sort that is dropped leaves no trace.
-/

namespace Criteria

open JoinTable

/-! ## Targets -/

/-- What takes the parts of a query one by one. -/
structure Target (τ : Type) where
  addJoin : τ → Join → τ
  addFilter : τ → Expr → τ
  addOrder : τ → Order → τ
  groupBy : τ → Column → τ

namespace Target

variable {τ : Type}

/-- The target after one call. -/
def call (T : Target τ) (target : τ) : Clause → τ
  | .join j => T.addJoin target j
  | .filter e => T.addFilter target e
  | .order o => T.addOrder target o
  | .groupBy column => T.groupBy target column

/-- The target after calls in order. -/
def calls (T : Target τ) (target : τ) (clauses : List Clause) : τ := clauses.foldl T.call target

/-- The query as a target. -/
def select : Target Select where
  addJoin q j := q.add (.join j)
  addFilter q e := q.add (.filter e)
  addOrder q o := q.add (.order o)
  groupBy q column := q.add (.groupBy column)

theorem calls_select (q : Select) (clauses : List Clause) : select.calls q clauses = q.addAll clauses := by
  have hcall : select.call = Select.add := by
    funext q clause
    cases clause <;> rfl
  rw [calls, hcall, Select.addAll]

end Target

variable {c : Catalog} {τ : Type} {t u : JoinTable} {options : Options}

/-- Compiles a search in a join table, which is cleared before, and hands the parts of its query to a target. -/
def evaluateInto (c : Catalog) (t : JoinTable) (base : Junction) (ors : List Junction) (sorts : List SortKey)
    (options : Options) (T : Target τ) (target : τ) : JoinTable × τ × Except SearchError Unit :=
  match compileNodes c (start t.root) (base ++ ors.map (Node.group .or)) with
  | (t, .error e) => (t, target, .error e)
  | (t, .ok terms) =>
    match compileSorts c options t sorts with
    | (t, .error e) => (t, target, .error e)
    | (t, .ok orders) =>
      let target := t.joins.foldl T.addJoin target
      let target := T.addFilter target (filterOf terms)
      let target := orders.foldl T.addOrder target
      (t, if options.distinct then T.groupBy target (keyColumn t.root) else target, .ok ())

/-- The calls that an evaluation makes are its clauses. -/
theorem Target.calls_clauses (T : Target τ) (target : τ) (options : Options) (t : JoinTable) (filter : Expr)
    (orders : List Order) :
    T.calls target (clauses options t filter orders) =
      let target := orders.foldl T.addOrder (T.addFilter (t.joins.foldl T.addJoin target) filter)
      if options.distinct then T.groupBy target (keyColumn t.root) else target := by
  simp only [calls, clauses, List.foldl_append, List.foldl_map, List.foldl_cons, List.foldl_nil, call]
  split <;> rfl

/-- The target receives the clauses of the evaluation. -/
theorem evaluateInto_eq (c : Catalog) (t : JoinTable) (base : Junction) (ors : List Junction) (sorts : List SortKey)
    (options : Options) (T : Target τ) (target : τ) :
    evaluateInto c t base ors sorts options T target =
      match evaluate c t.root base ors sorts options with
      | (u, .error e) => (u, target, .error e)
      | (u, .ok clauses) => (u, T.calls target clauses, .ok ()) := by
  unfold evaluateInto evaluate
  obtain ⟨u, terms⟩ := compileNodes c (start t.root) (base ++ ors.map (Node.group .or))
  cases terms with
  | error e => rfl
  | ok terms =>
    dsimp only
    obtain ⟨v, orders⟩ := compileSorts c options u sorts
    cases orders with
    | error e => rfl
    | ok orders =>
      dsimp only
      rw [T.calls_clauses]

/-- The query of a search is what its evaluation hands to all rows of the table. -/
theorem Search.selectWith_eq_evaluateInto (q : Search) {root : Entity} (hroot : c.entity? q.root = some root)
    (options : Options) :
    q.selectWith c options =
      match evaluateInto c (start root) q.base q.ors q.sorts options Target.select (Select.all root.table) with
      | (_, _, .error e) => .error e
      | (_, query, .ok ()) => .ok query := by
  rw [evaluateInto_eq]
  unfold selectWith
  rw [hroot]
  dsimp only [start]
  obtain ⟨u, result⟩ := evaluate c root q.base q.ors q.sorts options
  cases result with
  | error e => rfl
  | ok clauses =>
    dsimp only
    rw [Target.calls_select]

/-! ## Sorts that are dropped -/

/-- The evaluation is strict or lenient about sorts. -/
def Options.strict (options : Options) : Options := { options with ignoreUnknownSorts := false }

/-- The name of a sort does not fail as one that no attribute has. -/
def isKnown (c : Catalog) (root : String) (sort : SortKey) : Bool :=
  match AttributePath.resolve c root sort.name with
  | .error (.unresolvedAttribute _ _) => false
  | _ => true

/-- The sorts that an evaluation keeps, in order. -/
def keptSorts (c : Catalog) (root : String) (options : Options) (sorts : List SortKey) : List SortKey :=
  if options.ignoreUnknownSorts then sorts.filter (isKnown c root) else sorts

/-- A name fails because it stands for nothing, or because an entity is missing. -/
theorem resolve_eq_error {root name : String} {e : SearchError} (h : AttributePath.resolve c root name = .error e) :
    (∃ entity name, e = .unresolvedAttribute entity name) ∨ ∃ entity, e = .unknownEntity entity := by
  unfold AttributePath.resolve at h
  split at h <;> cases h
  · exact .inl ⟨_, _, rfl⟩
  · exact .inr ⟨_, rfl⟩

/-- Among the failures of names, those that may be passed over are those of unknown sorts. -/
theorem isKnown_eq_not_isDroppable {root : String} {sort : SortKey} {e : SearchError}
    (h : AttributePath.resolve c root sort.name = .error e) : isKnown c root sort = !e.isDroppable := by
  unfold isKnown
  rw [h]
  rcases resolve_eq_error h with ⟨entity, name, rfl⟩ | ⟨entity, rfl⟩ <;> rfl

theorem isKnown_of_ok {root : String} {sort : SortKey} {path : AttributePath}
    (h : AttributePath.resolve c root sort.name = .ok path) : isKnown c root sort = true := by
  unfold isKnown
  rw [h]

/-- Compiling sorts is compiling, strictly, those that are kept. -/
theorem compileSorts_keptSorts (hw : WellFormed c t) (options : Options) (sorts : List SortKey) :
    compileSorts c options t sorts = compileSorts c options.strict t (keptSorts c t.root.name options sorts) := by
  obtain ⟨distinct, lenient⟩ := options
  cases lenient with
  | false => rfl
  | true =>
    rw [keptSorts, if_pos rfl, Options.strict]
    induction sorts generalizing t with
    | nil => rfl
    | cons sort rest ih =>
      rw [compileSorts]
      cases hresolve : AttributePath.resolve c t.root.name sort.name with
      | error e =>
        have hknown := isKnown_eq_not_isDroppable hresolve
        cases hdrop : e.isDroppable with
        | true =>
          rw [List.filter_cons_of_neg (by rw [hknown, hdrop]; exact Bool.false_ne_true)]
          simpa [hdrop] using ih hw
        | false =>
          rw [List.filter_cons_of_pos (by rw [hknown, hdrop]; rfl), compileSorts, hresolve]
          simp [hdrop]
      | ok path =>
        rw [List.filter_cons_of_pos (isKnown_of_ok hresolve), compileSorts, hresolve]
        dsimp only
        cases hcolumn : t.resolve c path with
        | mk u column =>
          have hgrow := Grows.to (resolve_grows hw path) hcolumn
          have hrest := ih (Grows.wellFormed hgrow hw)
          rw [(Grows.continues hgrow).root] at hrest
          cases column with
          | error e => rfl
          | ok column =>
            dsimp only
            rw [hrest]

/-- A lenient evaluation is the strict one without the sorts that it drops: so it is also in its joins. -/
theorem evaluate_keptSorts (c : Catalog) (root : Entity) (base : Junction) (ors : List Junction) (sorts : List SortKey)
    (options : Options) :
    evaluate c root base ors sorts options =
      evaluate c root base ors (keptSorts c root.name options sorts) options.strict := by
  have hw := wellFormed_start c root
  unfold evaluate
  cases hterms : compileNodes c (start root) (base ++ ors.map (Node.group .or)) with
  | mk u terms =>
    have hgrow := Grows.to (compileNodes_grows hw _) hterms
    cases terms with
    | error e => rfl
    | ok terms =>
      dsimp only
      rw [compileSorts_keptSorts (Grows.wellFormed hgrow hw), (Grows.continues hgrow).root]
      rfl

/-- An evaluation fails with its conditions, or with its sorts. -/
theorem evaluate_fails_iff {root : Entity} {base : Junction} {ors : List Junction} {sorts : List SortKey}
    {e : SearchError} :
    evaluate c root base ors sorts options = (u, .error e) ↔
      compileNodes c (start root) (base ++ ors.map (Node.group .or)) = (u, .error e) ∨
        ∃ v terms, compileNodes c (start root) (base ++ ors.map (Node.group .or)) = (v, .ok terms) ∧
          compileSorts c options v sorts = (u, .error e) := by
  unfold evaluate
  obtain ⟨v, terms⟩ := compileNodes c (start root) (base ++ ors.map (Node.group .or))
  cases terms with
  | error e' => simp
  | ok terms =>
    dsimp only
    cases hsorts : compileSorts c options v sorts with
    | mk w orders => cases orders <;> simp [hsorts]

/-! ## Orders -/

/-- The order is that of the sort: by the column of its attribute, in its direction. -/
structure OrdersBy (c : Catalog) (root : Entity) (joins : List Join) (sort : SortKey) (order : Order) : Prop where
  direction : order.direction = sort.direction
  column : ∃ path, AttributePath.resolve c root.name sort.name = .ok path ∧ IsColumnOf root joins path order.column

/-- A strict evaluation orders by every sort, in order. -/
theorem compileSorts_orders (hw : WellFormed c t) {sorts : List SortKey} {orders : List Order}
    (h : compileSorts c options.strict t sorts = (u, .ok orders)) :
    List.Forall₂ (OrdersBy c t.root u.joins) sorts orders := by
  induction sorts generalizing t orders with
  | nil =>
    cases h
    exact .nil
  | cons sort rest ih =>
    unfold compileSorts at h
    split at h
    · cases h
    · rename_i path hpath
      split at h
      · cases h
      · rename_i v column hcolumn
        have hgrow := Grows.to (resolve_grows hw path) hcolumn
        have hwv := Grows.wellFormed hgrow hw
        split at h
        · cases h
        · rename_i w more hmore
          cases h
          have hgrow' := Grows.to (compileSorts_grows options.strict hwv rest) hmore
          have hroot := (Grows.continues hgrow).root
          have hroot' := (Grows.continues hgrow').root
          obtain ⟨hjoined, rfl⟩ := resolve_eq_ok hw hcolumn
          have hrest := ih hwv hmore
          rw [hroot] at hrest
          -- the column stays that of the attribute while further sorts add joins
          have hlater := ((Grows.continues hgrow').isJoined hjoined).isColumnOf (Grows.wellFormed hgrow' hwv)
          rw [(Grows.continues hgrow').columnOf hwv hjoined, hroot', hroot] at hlater
          exact .cons ⟨rfl, path, hpath, hlater⟩ hrest

/-! ## All or nothing -/

/-- An evaluation fails just where its conditions or the sorts that it keeps do not compile, and then leaves its target
alone. One that succeeds hands over its joins in the order in which they were made, one filter, an order for each sort
that is kept, and a grouping if rows are to be distinct. A lenient evaluation does in all of this what it does without
the sorts that name nothing, and what a strict one does without them; so it keeps no join of theirs, and passes over no
other failure. -/
theorem evaluateInto_calls (c : Catalog) (t : JoinTable) (base : Junction) (ors : List Junction) (sorts : List SortKey)
    (options : Options) (T : Target τ) (target : τ) :
    ((∃ u e, evaluateInto c t base ors sorts options T target = (u, target, .error e) ∧
        (compileNodes c (start t.root) (base ++ ors.map (Node.group .or)) = (u, .error e) ∨
          ∃ v terms, compileNodes c (start t.root) (base ++ ors.map (Node.group .or)) = (v, .ok terms) ∧
            compileSorts c options.strict v (keptSorts c t.root.name options sorts) = (u, .error e))) ∨
      ∃ u v terms orders,
        compileNodes c (start t.root) (base ++ ors.map (Node.group .or)) = (v, .ok terms) ∧
        compileSorts c options.strict v (keptSorts c t.root.name options sorts) = (u, .ok orders) ∧
        evaluateInto c t base ors sorts options T target =
          (u, T.calls target (u.joins.map .join ++ [.filter (filterOf terms)] ++ orders.map .order ++
            if options.distinct then [.groupBy (keyColumn t.root)] else []), .ok ()) ∧
        (∀ (i : Nat) (j : Join), u.joins[i]? = some j → j.index = i) ∧
        List.Forall₂ (OrdersBy c t.root u.joins) (keptSorts c t.root.name options sorts) orders) ∧
    (options.ignoreUnknownSorts = true →
      evaluateInto c t base ors sorts options T target =
          evaluateInto c t base ors (sorts.filter (isKnown c t.root.name)) options T target ∧
        evaluateInto c t base ors sorts options T target =
          evaluateInto c t base ors (sorts.filter (isKnown c t.root.name)) options.strict T target) := by
  have hw := wellFormed_start c t.root
  constructor
  · rw [evaluateInto_eq, evaluate_keptSorts]
    cases he : evaluate c t.root base ors (keptSorts c t.root.name options sorts) options.strict with
    | mk u result =>
      cases result with
      | error e => exact .inl ⟨u, e, rfl, evaluate_fails_iff.1 he⟩
      | ok clauses =>
        obtain ⟨v, terms, orders, hterms, horders, rfl⟩ := evaluate_eq_ok he
        have hgrow := Grows.to (compileNodes_grows hw _) hterms
        have hwv := Grows.wellFormed hgrow hw
        have hgrow' := Grows.to (compileSorts_grows options.strict hwv _) horders
        have hroot : v.root = t.root := (Grows.continues hgrow).root
        have hroot' : u.root = t.root := (Grows.continues hgrow').root.trans hroot
        refine .inr ⟨u, v, terms, orders, hterms, horders, ?_, fun i j hj => ?_, ?_⟩
        · rw [clauses, hroot']
          rfl
        · exact (Grows.wellFormed hgrow' hwv).index_eq hj
        · have hordered := compileSorts_orders hwv horders
          rwa [hroot] at hordered
  · intro hlenient
    have hkept (sorts : List SortKey) : keptSorts c t.root.name options sorts = sorts.filter (isKnown c t.root.name) :=
      if_pos hlenient
    simp only [evaluateInto_eq]
    rw [evaluate_keptSorts c t.root base ors sorts options, hkept]
    refine ⟨?_, rfl⟩
    rw [evaluate_keptSorts c t.root base ors _ options, hkept]
    simp only [List.filter_filter, Bool.and_self]

/-- Sorts by the salary of children, and by something that people have not. -/
def Search.familySorts : List SortKey := [⟨"children_shoe_size", .desc⟩, ⟨"children_salary", .asc⟩]

theorem evaluateInto_calls_family :
    Search.familySorts.filter (isKnown Search.family.catalog "Person") = [⟨"children_salary", .asc⟩] ∧
      (evaluateInto Search.family.catalog grandchildren [] [] Search.familySorts ⟨true, true⟩ Target.select
        (Select.all "people")).2.2.isOk = true ∧
      (evaluateInto Search.family.catalog grandchildren [] [] Search.familySorts ⟨true, false⟩ Target.select
        (Select.all "people")).2.2.isOk = false ∧
      evaluateInto Search.family.catalog grandchildren [] [] Search.familySorts ⟨true, true⟩ Target.select
          (Select.all "people") =
        evaluateInto Search.family.catalog grandchildren [] [] [⟨"children_salary", .asc⟩] ⟨true, false⟩ Target.select
          (Select.all "people") := by
  have hkept : Search.familySorts.filter (isKnown Search.family.catalog "Person") = [⟨"children_salary", .asc⟩] := by
    decide +kernel
  have hname : grandchildren.root.name = "Person" := by decide +kernel
  have hlenient := (evaluateInto_calls Search.family.catalog grandchildren [] [] Search.familySorts ⟨true, true⟩
    Target.select (Select.all "people")).2 rfl
  rw [hname, hkept] at hlenient
  exact ⟨hkept, by decide +kernel, by decide +kernel, hlenient.2⟩

end Criteria
