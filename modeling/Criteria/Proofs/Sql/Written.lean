import Criteria.Proofs.Sql.Tokens
import Criteria.Sql.Select
import Mathlib.Data.List.Forall2

/-!
# The tokens of expressions and queries

* `exprTokens` — the tokens of an expression, with a token of choice at each placeholder; `reads_render`: they are what
  its text is read as.
* `selectTokens` — the tokens of a query, those before its filters, of its filters and behind them; `reads_sql`: they
  are what its text is read as.
-/

namespace Criteria.Sql

/-! ## Putting texts together -/

variable {text more : String} {ts us : List Token}

theorem stops_append (h : stops text.toList = true) (hmore : stops more.toList = true) :
    stops (text ++ more).toList = true := by
  rw [String.toList_append]
  cases hlist : text.toList with
  | nil => exact hmore
  | cons c cs =>
    rw [hlist] at h
    exact h

theorem stops_front (h : stops text.toList = true) (hne : text ≠ "") (more : String) :
    stops (text ++ more).toList = true := by
  rw [String.toList_append]
  cases hlist : text.toList with
  | nil => exact absurd (String.toList_eq_nil_iff.1 hlist) hne
  | cons c cs =>
    rw [hlist] at h
    exact h

theorem reads_empty : Reads "" [] := by decide +kernel

theorem Reads.space (h : Reads text ts) : Reads (" " ++ text) ts := by
  refine ⟨?_, h.2⟩
  rw [String.toList_append]
  show tokens (' ' :: text.toList) = ts
  rw [tokens_space, h.1]

/-- A text behind another and a space. -/
theorem Reads.then (h : Reads text ts) (hmore : Reads more us) : Reads (text ++ " " ++ more) (ts ++ us) := by
  rw [String.append_assoc]
  exact h.append hmore.space (stops_front rfl (by decide) more)

/-- A text behind a separator that begins with a character that stops, and a space. -/
theorem Reads.spaced (h : Reads text ts) {sep : String} {seps : List Token} (hsep : Reads sep seps)
    (hstops : stops sep.toList = true) (hmore : Reads more us) :
    Reads (text ++ (sep ++ " ") ++ more) (ts ++ seps ++ us) := by
  rw [← String.append_assoc]
  exact (h.append hsep hstops).then hmore

/-- A text behind a sign. -/
theorem Reads.sign {sign : String} {c : Char} (hsign : sign.toList = [c]) (hspace : c ≠ ' ')
    (hc : ∀ cs, next c cs = (.sign c, cs)) (h : Reads text ts) : Reads (sign ++ text) (.sign c :: ts) := by
  constructor
  · rw [String.toList_append, hsign, List.singleton_append, tokens_cons hspace, hc, h.1]
  · rw [List.mem_cons, not_or]
    exact ⟨nofun, h.2⟩

/-! ## Expressions -/

/-- Token lists with others between them. -/
def joinTokens (sep : List Token) : List (List Token) → List Token
  | [] => []
  | [ts] => ts
  | ts :: us :: rest => ts ++ sep ++ joinTokens sep (us :: rest)

/-- The keyword of a combinator. -/
def joiner : Combinator → Keyword
  | .and => .and
  | .or => .or

/-- Two equal numbers, or two different ones. -/
def truthTokens (value : Bool) : List Token := [.word "1", .comparison .eq, .word (if value then "1" else "0")]

/-- The tokens of a qualified name. -/
def qualified (qualifier name : String) : List Token := [.name qualifier, .sign '.', .name name]

/-- The tokens of a column. -/
def columnTokens (column : Column) : List Token := qualified column.qualifier column.name

/-- The tokens of terms that are joined into one. -/
def groupTokens (m : Combinator) : List (List Token) → List Token
  | [] => truthTokens true
  | [ts] => ts
  | tss => .sign '(' :: (joinTokens [.keyword (joiner m)] tss ++ [.sign ')'])

/-- The tokens of a list of placeholders. -/
def placeTokens (place : Nat → Token) (bound : Nat) : (count : Nat) → List (List Token)
  | 0 => []
  | count + 1 => [place (bound + 1)] :: placeTokens place (bound + 1) count

mutual

/-- The tokens of an expression when `bound` values stand before its own. -/
def exprTokens (b : Backend) (place : Nat → Token) (bound : Nat) : Expr → List Token
  | .always => truthTokens true
  | .compare column op _ => columnTokens column ++ [.comparison op, place (bound + 1)]
  | .like column _ negated escaped =>
    columnTokens column ++ ((if negated then [.keyword .not, .keyword .like] else [.keyword .like]) ++
      (place (bound + 1) :: if escaped then [.keyword .escape, .literal "\\"] else []))
  | .inList _ [] negated => truthTokens negated
  | .inList column (value :: values) negated =>
    columnTokens column ++ ((if negated then [.keyword .not, .keyword .among] else [.keyword .among]) ++
      (.sign '(' :: (joinTokens [.sign ','] (placeTokens place bound (value :: values).length) ++ [.sign ')'])))
  | .isNull column negated =>
    columnTokens column ++
      if negated then [.keyword .is, .keyword .not, .keyword .null] else [.keyword .is, .keyword .null]
  | .isBool column value => columnTokens column ++ [.comparison .eq, .word (b.truth value)]
  | .group m terms => groupTokens m (allTokens b place bound terms)

/-- The tokens of expressions in order, each after the values of those before it. -/
def allTokens (b : Backend) (place : Nat → Token) (bound : Nat) : List Expr → List (List Token)
  | [] => []
  | term :: rest => exprTokens b place bound term :: allTokens b place (bound + (term.bindings).length) rest

end

theorem reads_truth (value : Bool) : Reads (if value then "1=1" else "1=0") (truthTokens value) := by
  cases value <;> decide +kernel

theorem reads_qualified (qualifier name : String) :
    Reads (quoteName qualifier ++ "." ++ quoteName name) (qualified qualifier name) := by
  have hname : Reads ("." ++ quoteName name) [.sign '.', .name name] :=
    (reads_quoteName name).sign rfl (by decide) fun _ => rfl
  rw [String.append_assoc]
  exact (reads_quoteName qualifier).append hname (stops_front rfl (by decide) _)

theorem reads_column (column : Column) : Reads column.render (columnTokens column) :=
  reads_qualified column.qualifier column.name

/-- Texts with a separator between them, which begins with a character that stops and ends with a space. -/
theorem reads_join {sep : String} {seps : List Token} (hsep : Reads sep seps) (hstops : stops sep.toList = true)
    {texts : List String} {tss : List (List Token)} (h : List.Forall₂ Reads texts tss) :
    Reads (Text.join (sep ++ " ") texts) (joinTokens seps tss) := by
  induction h with
  | nil => exact reads_empty
  | cons hfirst hrest ih =>
    cases hrest with
    | nil => exact hfirst
    | cons hsecond hrest => exact hfirst.spaced hsep hstops ih

theorem reads_group (m : Combinator) {texts : List String} {tss : List (List Token)}
    (h : List.Forall₂ Reads texts tss) : Reads (groupText m texts) (groupTokens m tss) := by
  have hjoined (sep : String) (hsep : Reads sep [.keyword (joiner m)]) (hstops : stops sep.toList = true) :
      Reads ("(" ++ Text.join (sep ++ " ") texts ++ ")")
        (.sign '(' :: (joinTokens [.keyword (joiner m)] tss ++ [.sign ')'])) := by
    have hopen : Reads ("(" ++ Text.join (sep ++ " ") texts) (.sign '(' :: joinTokens [.keyword (joiner m)] tss) :=
      (reads_join hsep hstops h).sign rfl (by decide) fun _ => rfl
    have hclose : Reads ")" [.sign ')'] := by decide +kernel
    exact hopen.append hclose rfl
  cases h with
  | nil => exact reads_truth true
  | cons hfirst hrest =>
    cases hrest with
    | nil => exact hfirst
    | cons hsecond hrest =>
      cases m with
      | and => exact hjoined " AND" (by decide +kernel) rfl
      | or => exact hjoined " OR" (by decide +kernel) rfl

theorem reads_placeholders (b : Backend) (bound count : Nat) :
    List.Forall₂ Reads (placeholders b bound count) (placeTokens (mark b) bound count) := by
  induction count generalizing bound with
  | zero => exact .nil
  | succ count ih => exact .cons (reads_placeholder b (bound + 1)) (ih (bound + 1))

theorem reads_compare (b : Backend) (bound : Nat) (column : Column) (op : Comparison) :
    Reads (column.render ++ " " ++ op.symbol ++ " " ++ b.placeholder (bound + 1))
      (columnTokens column ++ [.comparison op, mark b (bound + 1)]) := by
  have hop : Reads (" " ++ op.symbol) [.comparison op] := by
    cases op <;> decide +kernel
  have h := (reads_column column).spaced hop (stops_front rfl (by decide) op.symbol) (reads_placeholder b (bound + 1))
  have hassoc : column.render ++ (" " ++ op.symbol ++ " ") ++ b.placeholder (bound + 1) =
      column.render ++ " " ++ op.symbol ++ " " ++ b.placeholder (bound + 1) := by
    simp only [String.append_assoc]
  rwa [hassoc, List.append_assoc] at h

theorem reads_like (b : Backend) (bound : Nat) (column : Column) (negated escaped : Bool) :
    Reads (likeTerm column.render (b.placeholder (bound + 1)) negated escaped)
      (columnTokens column ++ ((if negated then [.keyword .not, .keyword .like] else [.keyword .like]) ++
        (mark b (bound + 1) :: if escaped then [.keyword .escape, .literal "\\"] else []))) := by
  have hmatch (sep : String) (seps : List Token) (hsep : Reads sep seps) (hstops : stops sep.toList = true) :
      Reads (column.render ++ (sep ++ " ") ++ b.placeholder (bound + 1) ++ (if escaped then " ESCAPE '\\'" else ""))
        (columnTokens column ++ (seps ++
          (mark b (bound + 1) :: if escaped then [.keyword .escape, .literal "\\"] else []))) := by
    have hplace := (reads_column column).spaced hsep hstops (reads_placeholder b (bound + 1))
    rw [List.append_assoc] at hplace
    cases escaped with
    | false =>
      have h := hplace.append reads_empty rfl
      simpa using h
    | true =>
      have hescape : Reads " ESCAPE '\\'" [.keyword .escape, .literal "\\"] := by decide +kernel
      have h := hplace.append hescape rfl
      simpa using h
  unfold likeTerm
  cases negated with
  | false => exact hmatch " LIKE" _ (by decide +kernel) rfl
  | true => exact hmatch " NOT LIKE" _ (by decide +kernel) rfl

theorem reads_inList (b : Backend) (bound count : Nat) (column : Column) (negated : Bool) :
    Reads (column.render ++ (if negated then " NOT IN (" else " IN (") ++
        Text.join ", " (placeholders b bound count) ++ ")")
      (columnTokens column ++ ((if negated then [.keyword .not, .keyword .among] else [.keyword .among]) ++
        (.sign '(' :: (joinTokens [.sign ','] (placeTokens (mark b) bound count) ++ [.sign ')'])))) := by
  have hplaces : Reads (Text.join ", " (placeholders b bound count))
      (joinTokens [.sign ','] (placeTokens (mark b) bound count)) := by
    have hcomma : Reads "," [.sign ','] := by decide +kernel
    exact reads_join hcomma rfl (reads_placeholders b bound count)
  have hclose : Reads ")" [.sign ')'] := by decide +kernel
  have hopen : Reads ("(" ++ Text.join ", " (placeholders b bound count))
      (.sign '(' :: joinTokens [.sign ','] (placeTokens (mark b) bound count)) :=
    hplaces.sign rfl (by decide) fun _ => rfl
  have hlist (sep : String) (seps : List Token) (hsep : Reads sep seps) (hstops : stops sep.toList = true) :
      Reads (column.render ++ (sep ++ " " ++ "(") ++ Text.join ", " (placeholders b bound count) ++ ")")
        (columnTokens column ++ (seps ++
          (.sign '(' :: (joinTokens [.sign ','] (placeTokens (mark b) bound count) ++ [.sign ')'])))) := by
    have h := ((reads_column column).spaced hsep hstops hopen).append hclose rfl
    have hassoc (a p j e : String) : a ++ (sep ++ " ") ++ (p ++ j) ++ e = a ++ (sep ++ " " ++ p) ++ j ++ e := by
      simp only [String.append_assoc]
    rw [hassoc] at h
    simpa using h
  cases negated with
  | false => exact hlist " IN" _ (by decide +kernel) rfl
  | true => exact hlist " NOT IN" _ (by decide +kernel) rfl

mutual

/-- The text of an expression is read as its tokens. -/
theorem reads_render (b : Backend) (bound : Nat) : (e : Expr) →
    Reads (e.render b bound) (exprTokens b (mark b) bound e)
  | .always => by
    rw [Expr.render, exprTokens]
    exact reads_truth true
  | .compare column op _ => by
    rw [Expr.render, exprTokens]
    exact reads_compare b bound column op
  | .like column _ negated escaped => by
    rw [Expr.render, exprTokens]
    exact reads_like b bound column negated escaped
  | .inList _ [] negated => by
    rw [Expr.render, exprTokens]
    exact reads_truth negated
  | .inList column (value :: values) negated => by
    rw [Expr.render, exprTokens]
    exact reads_inList b bound _ column negated
  | .isNull column negated => by
    rw [Expr.render, exprTokens]
    cases negated with
    | false => exact (reads_column column).append (by decide +kernel) rfl
    | true => exact (reads_column column).append (by decide +kernel) rfl
  | .isBool column value => by
    rw [Expr.render, exprTokens]
    have htruth : Reads (b.truth value) [.word (b.truth value)] := by
      cases b <;> cases value <;> decide +kernel
    have hequal : Reads " =" [.comparison .eq] := by decide +kernel
    have h := (reads_column column).spaced hequal rfl htruth
    rwa [List.append_assoc] at h
  | .group m terms => by
    rw [Expr.render, exprTokens]
    exact reads_group m (reads_renderAll b bound terms)

theorem reads_renderAll (b : Backend) (bound : Nat) : (terms : List Expr) →
    List.Forall₂ Reads (Expr.renderAll b bound terms) (allTokens b (mark b) bound terms)
  | [] => by
    rw [Expr.renderAll, allTokens]
    exact .nil
  | term :: rest => by
    rw [Expr.renderAll, allTokens]
    exact .cons (reads_render b bound term) (reads_renderAll b _ rest)

end

/-! ## Queries -/

/-- The words before a joined table. -/
def kindTokens : JoinKind → List Token
  | .inner => [.word "INNER", .word "JOIN"]
  | .left => [.word "LEFT", .word "OUTER", .word "JOIN"]

/-- The alias of a joined table, which is left out where it is the table's own name. -/
def aliasTokens (j : Join) : List Token := if j.aliasName = j.table then [] else [.name j.aliasName]

/-- The tokens of a join. -/
def joinedTokens (j : Join) : List Token :=
  kindTokens j.kind ++ [Token.name j.table] ++ aliasTokens j ++ [Token.word "ON"] ++ qualified j.aliasName j.column ++
    [Token.comparison .eq] ++ qualified j.parentQualifier j.parentColumn

/-- The tokens of the filters. -/
def whereTokens (b : Backend) (place : Nat → Token) : List Expr → List Token
  | [] => []
  | filters => [Token.keyword .filter] ++ joinTokens [.keyword .and] (allTokens b place 0 filters)

/-- The tokens of a grouping. -/
def groupByTokens : Option Column → List Token
  | none => []
  | some column => [Token.keyword .group, Token.word "BY"] ++ columnTokens column

/-- The tokens of a column to order by. -/
def orderTokens (o : Order) : List Token :=
  columnTokens o.column ++ if o.direction == .desc then [.word "DESC"] else [.word "ASC"]

/-- The tokens of an order. -/
def orderByTokens : List Order → List Token
  | [] => []
  | orders => [Token.keyword .order, Token.word "BY"] ++ joinTokens [.sign ','] (orders.map orderTokens)

/-- The tokens before the filters of a query. -/
def headTokens (q : Select) : List Token :=
  [Token.word "SELECT", Token.name q.table, Token.sign '.', Token.sign '*', Token.word "FROM"] ++
    [Token.name q.table] ++ q.joins.flatMap joinedTokens

/-- The tokens behind the filters of a query. -/
def tailTokens (q : Select) : List Token := groupByTokens q.groupBy ++ orderByTokens q.orders

/-- The tokens of a query. -/
def selectTokens (b : Backend) (place : Nat → Token) (q : Select) : List Token :=
  headTokens q ++ whereTokens b place q.filters ++ tailTokens q

theorem reads_alias (j : Join) :
    Reads (if j.aliasName = j.table then "" else " " ++ quoteName j.aliasName) (aliasTokens j) ∧
      stops (if j.aliasName = j.table then "" else " " ++ quoteName j.aliasName).toList = true := by
  unfold aliasTokens
  split
  · exact ⟨reads_empty, rfl⟩
  · exact ⟨(reads_quoteName j.aliasName).space, stops_front rfl (by decide) _⟩

theorem reads_joinText (j : Join) : Reads (Select.joinText j) (joinedTokens j) := by
  have hon : Reads " ON" [.word "ON"] := by decide +kernel
  have hequal : Reads " =" [.comparison .eq] := by decide +kernel
  have hjoin (kind : String) (kinds : List Token) (hkind : Reads kind kinds) :
      Reads (kind ++ " " ++ quoteName j.table ++ (if j.aliasName = j.table then "" else " " ++ quoteName j.aliasName) ++
          (" ON" ++ " ") ++ quoteName j.aliasName ++ "." ++ quoteName j.column ++
          (" =" ++ " ") ++ quoteName j.parentQualifier ++ "." ++ quoteName j.parentColumn)
        (kinds ++ [.name j.table] ++ aliasTokens j ++ [.word "ON"] ++
          qualified j.aliasName j.column ++ [.comparison .eq] ++ qualified j.parentQualifier j.parentColumn) := by
    have htable := (hkind.then (reads_quoteName j.table)).append (reads_alias j).1 (reads_alias j).2
    have hcolumn := htable.spaced hon rfl (reads_qualified j.aliasName j.column)
    have h := hcolumn.spaced hequal rfl (reads_qualified j.parentQualifier j.parentColumn)
    simp only [String.append_assoc] at h ⊢
    exact h
  unfold Select.joinText joinedTokens
  cases j.kind with
  | inner => exact hjoin " INNER JOIN" _ (by decide +kernel)
  | left => exact hjoin " LEFT OUTER JOIN" _ (by decide +kernel)

theorem stops_joinText (j : Join) : stops (Select.joinText j).toList = true := by
  unfold Select.joinText
  cases j.kind <;> simp [String.toList_append, stops, stopChars]

theorem reads_joins (joins : List Join) :
    Reads (Text.join "" (joins.map Select.joinText)) (joins.flatMap joinedTokens) ∧
      stops (Text.join "" (joins.map Select.joinText)).toList = true := by
  induction joins with
  | nil => exact ⟨reads_empty, rfl⟩
  | cons j rest ih =>
    cases rest with
    | nil =>
      rw [List.flatMap_singleton]
      exact ⟨reads_joinText j, stops_joinText j⟩
    | cons k rest =>
      rw [List.map_cons, List.map_cons, Text.join, String.append_empty, List.flatMap_cons, ← List.map_cons]
      exact ⟨(reads_joinText j).append ih.1 ih.2, stops_append (stops_joinText j) ih.2⟩

theorem reads_where (b : Backend) (filters : List Expr) :
    Reads (Select.whereText b filters) (whereTokens b (mark b) filters) ∧
      stops (Select.whereText b filters).toList = true := by
  cases filters with
  | nil => exact ⟨reads_empty, rfl⟩
  | cons first rest =>
    have hand : Reads " AND" [.keyword .and] := by decide +kernel
    have hwhere : Reads " WHERE" [.keyword .filter] := by decide +kernel
    exact ⟨hwhere.then (reads_join hand rfl (reads_renderAll b 0 (first :: rest))), stops_front rfl (by decide) _⟩

theorem reads_groupBy (column : Option Column) :
    Reads (Select.groupByText column) (groupByTokens column) ∧ stops (Select.groupByText column).toList = true := by
  cases column with
  | none => exact ⟨reads_empty, rfl⟩
  | some column =>
    have hgroup : Reads " GROUP BY" [.keyword .group, .word "BY"] := by decide +kernel
    exact ⟨hgroup.then (reads_column column), stops_front rfl (by decide) _⟩

theorem reads_order (o : Order) : Reads (orderTerm o.column.render (o.direction == .desc)) (orderTokens o) := by
  unfold orderTerm orderTokens
  cases o.direction == .desc with
  | false => exact (reads_column o.column).append (by decide +kernel) rfl
  | true => exact (reads_column o.column).append (by decide +kernel) rfl

theorem reads_orderBy (orders : List Order) :
    Reads (Select.orderByText orders) (orderByTokens orders) ∧ stops (Select.orderByText orders).toList = true := by
  cases orders with
  | nil => exact ⟨reads_empty, rfl⟩
  | cons first rest =>
    have horder : Reads " ORDER BY" [.keyword .order, .word "BY"] := by decide +kernel
    have hcomma : Reads "," [.sign ','] := by decide +kernel
    have hterms : List.Forall₂ Reads ((first :: rest).map fun o => orderTerm o.column.render (o.direction == .desc))
        ((first :: rest).map orderTokens) := by
      rw [List.forall₂_map_left_iff, List.forall₂_map_right_iff, List.forall₂_same]
      exact fun o _ => reads_order o
    exact ⟨horder.then (reads_join hcomma rfl hterms), stops_front rfl (by decide) _⟩

/-- The text of a query before its filters. -/
def headText (q : Select) : String :=
  "SELECT " ++ quoteName q.table ++ ".* FROM " ++ quoteName q.table ++ Text.join "" (q.joins.map Select.joinText)

/-- The text of a query behind its filters. -/
def tailText (q : Select) : String := Select.groupByText q.groupBy ++ Select.orderByText q.orders

theorem sql_eq (b : Backend) (q : Select) : q.sql b = headText q ++ Select.whereText b q.filters ++ tailText q := by
  simp only [Select.sql, headText, tailText, String.append_assoc]

theorem reads_head (q : Select) : Reads (headText q) (headTokens q) := by
  have hselect : Reads "SELECT" [.word "SELECT"] := by decide +kernel
  have hfrom : Reads ".* FROM" [.sign '.', .sign '*', .word "FROM"] := by decide +kernel
  have htable := (hselect.then (reads_quoteName q.table)).spaced hfrom rfl (reads_quoteName q.table)
  exact htable.append (reads_joins q.joins).1 (reads_joins q.joins).2

theorem reads_tail (q : Select) : Reads (tailText q) (tailTokens q) ∧ stops (tailText q).toList = true :=
  ⟨(reads_groupBy q.groupBy).1.append (reads_orderBy q.orders).1 (reads_orderBy q.orders).2,
    stops_append (reads_groupBy q.groupBy).2 (reads_orderBy q.orders).2⟩

/-- The text of a query is read as its tokens. -/
theorem reads_sql (b : Backend) (q : Select) : Reads (q.sql b) (selectTokens b (mark b) q) := by
  rw [sql_eq]
  have hwhere := (reads_head q).append (reads_where b q.filters).1 (reads_where b q.filters).2
  exact hwhere.append (reads_tail q).1 (reads_tail q).2

end Criteria.Sql
