import Criteria.Proofs.Sql.ReadBack

/-!
# Placeholders and the values behind them

A query is text that every backend writes alike, and between it bind values and truth values, which they spell in their
own ways.

* `Piece`, `selectPieces` — the parts of a query in order, without a backend.
* `Output.writeAll` — a query written part by part: a value is bound as its placeholder is written.
* `scan` — the tokens of parts, each read for itself.
* `Spelled` — what becomes of parts when they are written; parts one after the other (`Spelled.append`), expressions
  (`spelled_expr`), queries (`spelled_select`).
* `sql_pieces` — the text and the bind values of a query are those of its parts, its quotes are closed, and its
  placeholders are as many as its bind values, in their order.
-/

namespace Criteria.Sql

/-! ## Parts of a query -/

/-- A part of a query. -/
inductive Piece where
  | text (s : String)
  /-- A bind value, for which a placeholder is written. -/
  | value (v : BindValue)
  /-- The truth value with which a column is compared. -/
  | truth (holds : Bool)

/-- Parts with a text between them. -/
def joinPieces (sep : String) : List (List Piece) → List Piece
  | [] => []
  | [ps] => ps
  | ps :: qs :: rest => ps ++ ([.text sep] ++ joinPieces sep (qs :: rest))

/-- The parts of terms that are joined into one. -/
def groupPieces (m : Combinator) : List (List Piece) → List Piece
  | [] => [.text "1=1"]
  | [ps] => ps
  | pss => [.text "("] ++ joinPieces (match m with | .and => " AND " | .or => " OR ") pss ++ [.text ")"]

mutual

/-- The parts of an expression: each value stands where it is tested. -/
def exprPieces : Expr → List Piece
  | .always => [.text "1=1"]
  | .compare column op value => [.text column.render, .text (" " ++ op.symbol ++ " "), .value value]
  | .like column pattern negated escaped =>
    [.text column.render, .text (if negated then " NOT LIKE " else " LIKE "), .value (.text pattern),
      .text (if escaped then " ESCAPE '\\'" else "")]
  | .inList _ [] negated => [.text (if negated then "1=1" else "1=0")]
  | .inList column (value :: values) negated =>
    [.text column.render, .text (if negated then " NOT IN (" else " IN (")] ++
      joinPieces ", " ((value :: values).map fun v => [.value v]) ++ [.text ")"]
  | .isNull column negated => [.text column.render, .text (if negated then " IS NOT NULL" else " IS NULL")]
  | .isBool column holds => [.text column.render, .text " = ", .truth holds]
  | .group m terms => groupPieces m (allPieces terms)

def allPieces : List Expr → List (List Piece)
  | [] => []
  | term :: rest => exprPieces term :: allPieces rest

end

/-- The parts of the filters, all of which have to hold. -/
def wherePieces : List Expr → List Piece
  | [] => []
  | filters => [.text " WHERE "] ++ joinPieces " AND " (allPieces filters)

/-- The parts of a query. -/
def selectPieces (q : Select) : List Piece :=
  [.text (headText q)] ++ wherePieces q.filters ++ [.text (tailText q)]

/-! ## Writing -/

/-- How placeholders, counted from one, and truth values are spelled. -/
structure Spelling where
  placeholder : Nat → String
  truth : Bool → String

/-- The spelling of a backend. -/
def spelling (b : Backend) : Spelling := ⟨b.placeholder, b.truth⟩

/-- What has been written, and the values that have been bound. -/
structure Output where
  text : String
  bound : List BindValue

namespace Output

/-- Nothing has been written. -/
def empty : Output := ⟨"", []⟩

/-- Writes a part. A value is bound, and the placeholder of its position is written. -/
def write (spelling : Spelling) (out : Output) : Piece → Output
  | .text s => ⟨out.text ++ s, out.bound⟩
  | .value v => ⟨out.text ++ spelling.placeholder (out.bound.length + 1), out.bound ++ [v]⟩
  | .truth holds => ⟨out.text ++ spelling.truth holds, out.bound⟩

/-- Writes parts in order. -/
def writeAll (spelling : Spelling) (out : Output) (ps : List Piece) : Output := ps.foldl (write spelling) out

end Output

/-- The tokens of parts when `bound` values stand before theirs, each part read for itself. -/
def scan (b : Backend) (bound : Nat) : List Piece → List Token
  | [] => []
  | .text s :: rest => tokens s.toList ++ scan b bound rest
  | .value _ :: rest => mark b (bound + 1) :: scan b (bound + 1) rest
  | .truth holds :: rest => .word (b.truth holds) :: scan b bound rest

/-- Whether a token is the place of a bind value. -/
def Token.isPlaceholder : Token → Bool
  | .placeholder _ => true
  | _ => false

/-- Parts behind `bound` values are written as a text and bind values, and read as tokens, whose placeholders stand for
these values. -/
structure Spelled (b : Backend) (bound : Nat) (ps : List Piece) (text : String) (values : List BindValue)
    (ts : List Token) : Prop where
  writes : ∀ out : Output, out.bound.length = bound →
    out.writeAll (spelling b) ps = ⟨out.text ++ text, out.bound ++ values⟩
  scans : ∀ rest, scan b bound (ps ++ rest) = ts ++ scan b (bound + values.length) rest
  places : ts.filter Token.isPlaceholder = (List.range' (bound + 1) values.length).map (mark b)

/-- Lists of parts that follow one another. -/
inductive SpelledAll (b : Backend) :
    (bound : Nat) → List (List Piece) → List String → List BindValue → List (List Token) → Prop
  | nil (bound : Nat) : SpelledAll b bound [] [] [] []
  | cons {bound : Nat} {ps : List Piece} {pss : List (List Piece)} {text : String} {texts : List String}
      {values more : List BindValue} {ts : List Token} {tss : List (List Token)}
      (h : Spelled b bound ps text values ts) (hmore : SpelledAll b (bound + values.length) pss texts more tss) :
      SpelledAll b bound (ps :: pss) (text :: texts) (values ++ more) (ts :: tss)

variable {b : Backend} {bound : Nat}

theorem Spelled.append {ps qs : List Piece} {text more : String} {values others : List BindValue} {ts us : List Token}
    (h : Spelled b bound ps text values ts) (hmore : Spelled b (bound + values.length) qs more others us) :
    Spelled b bound (ps ++ qs) (text ++ more) (values ++ others) (ts ++ us) := by
  refine ⟨fun out hout => ?_, fun rest => ?_, ?_⟩
  · have hlength : (out.bound ++ values).length = bound + values.length := by simp [hout]
    show (ps ++ qs).foldl _ out = _
    rw [List.foldl_append]
    show (out.writeAll _ ps).writeAll _ qs = _
    rw [h.writes out hout, hmore.writes _ hlength, String.append_assoc, List.append_assoc]
  · rw [List.append_assoc, h.scans, hmore.scans, List.append_assoc, List.length_append, Nat.add_assoc]
  · rw [List.filter_append, h.places, hmore.places, List.length_append, ← List.map_append, ← List.range'_append_1]
    simp [Nat.add_right_comm]

theorem spelled_text {s : String} {ts : List Token} (h : Reads s ts) (hplain : ts.any Token.isPlaceholder = false) :
    Spelled b bound [.text s] s [] ts := by
  refine ⟨fun out _ => ?_, fun rest => ?_, ?_⟩
  · simp [Output.writeAll, Output.write]
  · simp [scan, h.1]
  · simpa using hplain

theorem spelled_value (v : BindValue) :
    Spelled b bound [.value v] (b.placeholder (bound + 1)) [v] [mark b (bound + 1)] := by
  refine ⟨fun out hout => ?_, fun rest => rfl, ?_⟩
  · simp [Output.writeAll, Output.write, spelling, hout]
  · cases b <;> rfl

theorem spelled_truth (holds : Bool) : Spelled b bound [.truth holds] (b.truth holds) [] [.word (b.truth holds)] :=
  ⟨fun out _ => by simp [Output.writeAll, Output.write, spelling], fun _ => rfl, rfl⟩

/-! ## Expressions -/

theorem spelled_column (column : Column) :
    Spelled b bound [.text column.render] column.render [] (columnTokens column) :=
  spelled_text (reads_column column) rfl

theorem spelled_join {sep : String} {seps : List Token} (hsep : Reads sep seps)
    (hplain : seps.any Token.isPlaceholder = false) {pss : List (List Piece)} {texts : List String}
    {values : List BindValue} {tss : List (List Token)} (h : SpelledAll b bound pss texts values tss) :
    Spelled b bound (joinPieces sep pss) (Text.join sep texts) values (joinTokens seps tss) := by
  induction h with
  | nil => exact ⟨fun out _ => by simp [joinPieces, Text.join, Output.writeAll], fun _ => rfl, rfl⟩
  | cons h hmore ih =>
    cases hmore with
    | nil => simpa [joinPieces, Text.join, joinTokens] using h
    | cons _ _ =>
      have hrest := h.append ((spelled_text hsep hplain).append ih)
      simpa [joinPieces, Text.join, joinTokens, String.append_assoc] using hrest

theorem spelled_group (m : Combinator) {pss : List (List Piece)} {texts : List String} {values : List BindValue}
    {tss : List (List Token)} (h : SpelledAll b bound pss texts values tss) :
    Spelled b bound (groupPieces m pss) (groupText m texts) values (groupTokens m tss) := by
  have hopen : Reads "(" [.sign '('] := by decide +kernel
  have hclose : Reads ")" [.sign ')'] := by decide +kernel
  have hjoined (sep : String) (hsep : Reads sep [.keyword (joiner m)]) :
      Spelled b bound ([.text "("] ++ joinPieces sep pss ++ [.text ")"]) ("(" ++ Text.join sep texts ++ ")") values
        (.sign '(' :: (joinTokens [.keyword (joiner m)] tss ++ [.sign ')'])) := by
    have hjoin := spelled_join hsep rfl h
    simpa using ((spelled_text hopen rfl).append hjoin).append (spelled_text hclose rfl)
  cases h with
  | nil => exact spelled_text (reads_truth true) rfl
  | cons h hmore =>
    cases hmore with
    | nil => simpa [groupPieces, groupText, groupTokens] using h
    | cons _ _ =>
      cases m with
      | and => exact hjoined " AND " (by decide +kernel)
      | or => exact hjoined " OR " (by decide +kernel)

theorem spelled_values (values : List BindValue) :
    SpelledAll b bound (values.map fun v => [.value v]) (placeholders b bound values.length) values
      (placeTokens (mark b) bound values.length) := by
  induction values generalizing bound with
  | nil => exact .nil bound
  | cons v values ih => exact .cons (spelled_value v) ih

theorem spelled_list (values : List BindValue) :
    Spelled b bound (joinPieces ", " (values.map fun v => [.value v]) ++ [.text ")"])
      (Text.join ", " (placeholders b bound values.length) ++ ")") values
      (joinTokens [.sign ','] (placeTokens (mark b) bound values.length) ++ [.sign ')']) := by
  have hcomma : Reads ", " [.sign ','] := by decide +kernel
  have hclose : Reads ")" [.sign ')'] := by decide +kernel
  simpa using (spelled_join hcomma rfl (spelled_values values)).append (spelled_text hclose rfl)

mutual

/-- An expression is spelled as it is rendered, and binds its values. -/
theorem spelled_expr (b : Backend) (bound : Nat) : (e : Expr) →
    Spelled b bound (exprPieces e) (e.render b bound) e.bindings (exprTokens b (mark b) bound e)
  | .always => by
    rw [exprPieces, Expr.render, exprTokens]
    exact spelled_text (reads_truth true) rfl
  | .compare column op value => by
    have hop : Reads (" " ++ op.symbol ++ " ") [.comparison op] := by cases op <;> decide +kernel
    have h : Spelled b bound _ _ _ _ :=
      (spelled_column column).append ((spelled_text hop rfl).append (spelled_value value))
    rw [exprPieces, Expr.render, exprTokens, Expr.bindings]
    simpa [String.append_assoc] using h
  | .like column pattern negated escaped => by
    have hlike : Reads (if negated then " NOT LIKE " else " LIKE ")
        (if negated then [.keyword .not, .keyword .like] else [.keyword .like]) := by
      cases negated <;> decide +kernel
    have hescape : Reads (if escaped then " ESCAPE '\\'" else "")
        (if escaped then [.keyword .escape, .literal "\\"] else []) := by
      cases escaped <;> decide +kernel
    have h : Spelled b bound _ _ _ _ := (spelled_column column).append
      ((spelled_text hlike (by cases negated <;> rfl)).append
        ((spelled_value (.text pattern)).append (spelled_text hescape (by cases escaped <;> rfl))))
    rw [exprPieces, Expr.render, exprTokens, Expr.bindings, likeTerm]
    simpa [String.append_assoc] using h
  | .inList _ [] negated => by
    rw [exprPieces, Expr.render, exprTokens]
    exact spelled_text (reads_truth negated) (by cases negated <;> rfl)
  | .inList column (value :: values) negated => by
    have hin : Reads (if negated then " NOT IN (" else " IN (")
        ((if negated then [.keyword .not, .keyword .among] else [.keyword .among]) ++ [.sign '(']) := by
      cases negated <;> decide +kernel
    have h : Spelled b bound _ _ _ _ := (spelled_column column).append
      ((spelled_text hin (by cases negated <;> rfl)).append (spelled_list (value :: values)))
    rw [exprPieces, Expr.render, exprTokens, Expr.bindings]
    simpa [String.append_assoc] using h
  | .isNull column negated => by
    have hnull : Reads (if negated then " IS NOT NULL" else " IS NULL")
        (if negated then [.keyword .is, .keyword .not, .keyword .null] else [.keyword .is, .keyword .null]) := by
      cases negated <;> decide +kernel
    rw [exprPieces, Expr.render, exprTokens]
    exact (spelled_column column).append (spelled_text hnull (by cases negated <;> rfl))
  | .isBool column holds => by
    have hequal : Reads " = " [.comparison .eq] := by decide +kernel
    have h : Spelled b bound _ _ _ _ :=
      (spelled_column column).append ((spelled_text hequal rfl).append (spelled_truth holds))
    rw [exprPieces, Expr.render, exprTokens, Expr.bindings]
    simpa [String.append_assoc] using h
  | .group m terms => by
    rw [exprPieces, Expr.render, exprTokens, Expr.bindings]
    exact spelled_group m (spelled_all b bound terms)

theorem spelled_all (b : Backend) (bound : Nat) : (terms : List Expr) →
    SpelledAll b bound (allPieces terms) (Expr.renderAll b bound terms) (Expr.allBindings terms)
      (allTokens b (mark b) bound terms)
  | [] => by
    rw [allPieces, Expr.renderAll, allTokens]
    exact .nil bound
  | term :: rest => by
    rw [allPieces, Expr.renderAll, allTokens, Expr.allBindings]
    exact .cons (spelled_expr b bound term) (spelled_all b _ rest)

end

/-! ## Queries -/

theorem spelled_where (b : Backend) (filters : List Expr) :
    Spelled b 0 (wherePieces filters) (Select.whereText b filters) (Expr.allBindings filters)
      (whereTokens b (mark b) filters) := by
  cases filters with
  | nil => exact ⟨fun out _ => by simp [wherePieces, Select.whereText, Expr.allBindings, Output.writeAll],
      fun _ => rfl, rfl⟩
  | cons first rest =>
    have hwhere : Reads " WHERE " [.keyword .filter] := by decide +kernel
    have hand : Reads " AND " [.keyword .and] := by decide +kernel
    exact (spelled_text hwhere rfl).append (spelled_join hand rfl (spelled_all b 0 (first :: rest)))

theorem any_isPlaceholder_of_isPlain {ts : List Token} (h : ts.all Token.isPlain = true) :
    ts.any Token.isPlaceholder = false := by
  rw [List.any_eq_false]
  intro t ht
  have hplain := List.all_eq_true.1 h t ht
  cases t <;> simp_all [Token.isPlain, Token.isPlaceholder]

theorem spelled_select (b : Backend) (q : Select) :
    Spelled b 0 (selectPieces q) (q.sql b) q.bindings (selectTokens b (mark b) q) := by
  have hhead := any_isPlaceholder_of_isPlain (isPlain_head q)
  have htail := any_isPlaceholder_of_isPlain (isPlain_tail q)
  have h := ((spelled_text (reads_head q) hhead).append (spelled_where b q.filters)).append
    (spelled_text (reads_tail q).1 htail)
  rw [sql_eq]
  simpa [selectPieces, selectTokens, Select.bindings] using h

/-- A query has the same parts for every backend, which spells its placeholders and truth values. Writing them binds the
values of the query in order. The text closes its quotes and is read part by part, and outside of quotes it has one
placeholder for each bind value, in their order. -/
theorem sql_pieces (b : Backend) (q : Select) :
    Output.empty.writeAll (spelling b) (selectPieces q) = ⟨q.sql b, q.bindings⟩ ∧
      Token.unclosed ∉ tokens (q.sql b).toList ∧ tokens (q.sql b).toList = scan b 0 (selectPieces q) ∧
      (tokens (q.sql b).toList).filter Token.isPlaceholder = (List.range' 1 q.bindings.length).map (mark b) := by
  obtain ⟨htokens, hclosed⟩ := reads_sql b q
  have h := spelled_select b q
  rw [htokens]
  refine ⟨?_, hclosed, ?_, h.places⟩
  · simpa [Output.empty] using h.writes Output.empty rfl
  · simpa [scan] using (h.scans []).symm

example : (tokens (Select.sql .postgres { Select.all "t\"?" with
      filters := [.compare ⟨"$7", "'?", .text⟩ .eq (.text "?"), .like ⟨"t", "n", .text⟩ "$9" true true] }).toList).filter
        Token.isPlaceholder = [.placeholder (some 1), .placeholder (some 2)] := by
  decide +kernel

end Criteria.Sql
