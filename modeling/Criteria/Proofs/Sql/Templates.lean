import Criteria.Sql.Select

/-!
# Queries without their values

* `BindValue.Kind` — the variants of bind values, and `Kind.plain` one value of each.
* `Expr.template`, `Select.template` — an expression or a query in which each value is the plain one of its kind.
* `render_template`, `Select.sql_template` — that leaves the text alone: values do not get into it.
* `bindings_template`, `Select.bindings_template` — and it leaves the number and the kinds of the bind values alone.
-/

namespace Criteria

/-! ## Kinds of values -/

namespace BindValue

/-- The variants of bind values. -/
inductive Kind where
  | text
  | int
  | float
  | bool
  deriving DecidableEq

/-- The variant of a value. -/
def kind : BindValue → Kind
  | text _ => .text
  | int _ => .int
  | float _ => .float
  | bool _ => .bool

/-- A value of a kind, the same for all. -/
def Kind.plain : Kind → BindValue
  | text => .text ""
  | int => .int 0
  | float => .float ⟨0⟩
  | bool => .bool false

@[simp] theorem kind_plain (k : Kind) : k.plain.kind = k := by
  cases k <;> rfl

end BindValue

/-! ## Expressions -/

namespace Expr

mutual

/-- The expression with plain values. -/
def template : Expr → Expr
  | always => always
  | compare column op value => compare column op value.kind.plain
  | like column _ negated escaped => like column "" negated escaped
  | inList column values negated => inList column (values.map fun value => value.kind.plain) negated
  | isNull column negated => isNull column negated
  | isBool column value => isBool column value
  | group m terms => group m (allTemplates terms)

def allTemplates : List Expr → List Expr
  | [] => []
  | term :: rest => template term :: allTemplates rest

end

theorem allTemplates_eq_map (terms : List Expr) : allTemplates terms = terms.map template := by
  induction terms with
  | nil => rfl
  | cons term rest ih => rw [allTemplates, ih, List.map_cons]

theorem allTemplates_append (terms more : List Expr) :
    allTemplates (terms ++ more) = allTemplates terms ++ allTemplates more := by
  rw [allTemplates_eq_map, List.map_append, ← allTemplates_eq_map, ← allTemplates_eq_map]

mutual

theorem bindings_template : (e : Expr) → e.template.bindings = e.bindings.map fun value => value.kind.plain
  | always | compare _ _ _ | like _ _ _ _ | inList _ _ _ | isNull _ _ | isBool _ _ => rfl
  | group m terms => by
    rw [template, bindings, bindings, allBindings_template terms]

theorem allBindings_template : (terms : List Expr) →
    allBindings (allTemplates terms) = (allBindings terms).map fun value => value.kind.plain
  | [] => rfl
  | term :: rest => by
    rw [allTemplates, allBindings, allBindings, bindings_template term, allBindings_template rest, List.map_append]

end

mutual

/-- The text of an expression does not depend on its values. -/
theorem render_template (b : Backend) (bound : Nat) : (e : Expr) → e.template.render b bound = e.render b bound
  | always | compare _ _ _ | like _ _ _ _ | inList _ [] _ | isNull _ _ | isBool _ _ => by
    simp only [template, render, List.map_nil]
  | inList column (value :: values) negated => by
    simp only [template, render, List.map_cons, List.length_cons, List.length_map]
  | group m terms => by
    rw [template, render, render, renderAll_template b bound terms]

theorem renderAll_template (b : Backend) (bound : Nat) : (terms : List Expr) →
    renderAll b bound (allTemplates terms) = renderAll b bound terms
  | [] => rfl
  | term :: rest => by
    -- the placeholders behind an expression count its values, and there are as many plain ones
    rw [allTemplates, renderAll, renderAll, render_template b bound term, bindings_template, List.length_map,
      renderAll_template b _ rest]

end

end Expr

/-! ## Queries -/

namespace Select

/-- The query with plain values. -/
def template (q : Select) : Select := { q with filters := Expr.allTemplates q.filters }

theorem sql_template (b : Backend) (q : Select) : q.template.sql b = q.sql b := by
  have hwhere : whereText b (Expr.allTemplates q.filters) = whereText b q.filters := by
    cases hfilters : q.filters with
    | nil => rfl
    | cons filter rest =>
      change " WHERE " ++ Text.join " AND " (Expr.renderAll b 0 (Expr.allTemplates (filter :: rest))) = _
      rw [Expr.renderAll_template]
      rfl
  rw [sql, template, hwhere, sql]

theorem bindings_template (q : Select) : q.template.bindings = q.bindings.map fun value => value.kind.plain :=
  Expr.allBindings_template q.filters

variable {q q' : Select}

theorem sql_of_template (h : q.template = q'.template) (b : Backend) : q.sql b = q'.sql b := by
  rw [← sql_template b q, h, sql_template b q']

theorem kinds_of_template (h : q.template = q'.template) :
    q.bindings.map BindValue.kind = q'.bindings.map BindValue.kind := by
  have hplain := congrArg (List.map BindValue.kind) (congrArg bindings h)
  simpa [bindings_template, Function.comp_def] using hplain

end Select

end Criteria
