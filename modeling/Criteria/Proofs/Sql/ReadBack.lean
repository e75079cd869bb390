import Criteria.Proofs.Sql.Conditions
import Criteria.Proofs.Sql.Written

/-!
# Reading filters back

* `holdsAt` — the truth value of an expression, given those of the tests that its text makes of columns.
* `IsOperand` — tokens that are read as one operand of the condition around them, whatever that is; those of expressions
  are (`isOperand_expr`), since a group of several terms stands in parentheses.
* `numbered_expr` — placeholders without positions are those of the bind values in order.
* `condition?_sql` — the condition of a query has the value of its filters.
-/

namespace Criteria.Sql

/-- The token of a placeholder with a position. -/
def placed (position : Nat) : Token := .placeholder (some position)

mutual

/-- The truth value of an expression when `bound` values stand before its own, given those of the tests in its text. -/
def holdsAt (v : Atom → Bool) (b : Backend) (bound : Nat) : Expr → Bool
  | .always => true
  | .compare column op _ => v ⟨column.qualifier, column.name, .compare op (.bound (bound + 1))⟩
  | .like column _ negated escaped =>
    v ⟨column.qualifier, column.name, .like negated (bound + 1) (if escaped then some "\\" else none)⟩
  | .inList _ [] negated => negated
  | .inList column (value :: values) negated =>
    v ⟨column.qualifier, column.name, .inList negated (List.range' (bound + 1) (value :: values).length)⟩
  | .isNull column negated => v ⟨column.qualifier, column.name, .isNull negated⟩
  | .isBool column value => v ⟨column.qualifier, column.name, .compare .eq (.word (b.truth value))⟩
  | .group m terms => m.combine (allHoldAt v b bound terms)

/-- The truth values of expressions in order, each after the values of those before it. -/
def allHoldAt (v : Atom → Bool) (b : Backend) (bound : Nat) : List Expr → List Bool
  | [] => []
  | term :: rest => holdsAt v b bound term :: allHoldAt v b (bound + term.bindings.length) rest

end

/-! ## Levels -/

namespace Level

/-- Where the operand behind a joiner goes. -/
def behind (m : Combinator) (l : Level) : Level :=
  match m with
  | .and => l
  | .or => l.alternative

/-- One more operand behind a joiner. -/
def join (m : Combinator) (l : Level) (f : Formula) : Level := (l.behind m).operand f

/-- Operands joined by AND come together in one conjunction. -/
theorem foldl_and (disjunction : Option Formula) (f : Formula) (fs : List Formula) :
    ∃ g : Formula, fs.foldl (join .and) ⟨disjunction, some f⟩ = ⟨disjunction, some g⟩ ∧
      ∀ v, g.holds v = (f.holds v && fs.all (Formula.holds v)) := by
  induction fs generalizing f with
  | nil =>
    refine ⟨f, rfl, fun v => ?_⟩
    rw [List.all_nil, Bool.and_true]
  | cons f' fs ih =>
    obtain ⟨g, hg, hholds⟩ := ih (.and f f')
    refine ⟨g, hg, fun v => ?_⟩
    rw [hholds, List.all_cons, Formula.holds, Bool.and_assoc]

/-- Operands joined by OR come together one after the other. -/
theorem foldl_or {l : Level} {f : Formula} (hl : l.formula? = some f) (fs : List Formula) :
    ∃ g : Formula, (fs.foldl (join .or) l).formula? = some g ∧
      ∀ v, g.holds v = (f.holds v || fs.any (Formula.holds v)) := by
  induction fs generalizing l f with
  | nil =>
    refine ⟨f, hl, fun v => ?_⟩
    rw [List.any_nil, Bool.or_false]
  | cons f' fs ih =>
    have hnext : (l.join .or f').formula? = some (.or f f') := by
      unfold join behind alternative
      rw [hl]
      rfl
    obtain ⟨g, hg, hholds⟩ := ih hnext
    refine ⟨g, hg, fun v => ?_⟩
    rw [hholds, List.any_cons, Formula.holds, Bool.or_assoc]

/-- What one level reads of operands with the same joiner between them. -/
theorem formula?_foldl (m : Combinator) (f : Formula) (fs : List Formula) :
    ∃ g : Formula, (fs.foldl (join m) (start.operand f)).formula? = some g ∧
      ∀ v, g.holds v = m.combine ((f :: fs).map (Formula.holds v)) := by
  cases m with
  | and =>
    obtain ⟨g, hg, hholds⟩ := foldl_and none f fs
    refine ⟨g, ?_, fun v => ?_⟩
    · show (fs.foldl (join .and) ⟨none, some f⟩).formula? = some g
      rw [hg]
      rfl
    · rw [hholds, Combinator.combine_and, List.all_map, List.all_cons]
      rfl
  | or =>
    have hstart : (start.operand f).formula? = some f := rfl
    obtain ⟨g, hg, hholds⟩ := foldl_or hstart fs
    refine ⟨g, hg, fun v => ?_⟩
    rw [hholds, List.map_cons, Combinator.combine_or_cons, List.any_map]
    rfl

end Level

/-! ## Operands -/

/-- Tokens that are read as an operand. What follows must not be taken for the end of a match. -/
def IsOperand (ts : List Token) (f : Formula) : Prop :=
  ∀ outer level rest, rest.head? ≠ some (.keyword .escape) →
    readOperand outer level (ts ++ rest) = readJoiner outer (level.operand f) rest

theorem readOperand_parenthesis (outer : List Level) (level : Level) (ts : List Token) :
    readOperand outer level (.sign '(' :: ts) = readOperand (level :: outer) .start ts := by
  rw [readOperand]

theorem readOperand_primary {ts rest : List Token} {f : Formula} (h : primary? ts = some (f, rest)) (outer : List Level)
    (level : Level) : readOperand outer level ts = readJoiner outer (level.operand f) rest := by
  rw [readOperand.eq_def]
  split
  · cases h
  · split
    · rename_i f' rest' h'
      rw [h] at h'
      cases h'
      rfl
    · rename_i h'
      rw [h] at h'
      cases h'

theorem readJoiner_joiner (m : Combinator) (outer : List Level) (level : Level) (ts : List Token) :
    readJoiner outer level (.keyword (joiner m) :: ts) = readOperand outer (level.behind m) ts := by
  cases m <;> exact readJoiner.eq_def ..

theorem readJoiner_parenthesis {level : Level} {f : Formula} (h : level.formula? = some f) (outer : List Level)
    (parent : Level) (ts : List Token) :
    readJoiner (parent :: outer) level (.sign ')' :: ts) = readJoiner outer (parent.operand f) ts := by
  rw [readJoiner.eq_def]
  simp only [h]

theorem isOperand_primary {ts : List Token} {f : Formula}
    (h : ∀ rest : List Token, rest.head? ≠ some (.keyword .escape) → primary? (ts ++ rest) = some (f, rest)) :
    IsOperand ts f := by
  intro outer level rest hrest
  exact readOperand_primary (h rest hrest) outer level

theorem head?_ne_escape {t : Token} (ht : t ≠ .keyword .escape) (rest : List Token) :
    (t :: rest).head? ≠ some (.keyword .escape) := by
  rw [List.head?_cons]
  exact fun h => ht (Option.some.inj h)

/-- Operands with the same joiner between them are read on one level. -/
theorem readOperand_join (m : Combinator) {ts : List Token} {f : Formula} {tss : List (List Token)} {fs : List Formula}
    (hfirst : IsOperand ts f) (hmore : List.Forall₂ IsOperand tss fs) (outer : List Level) (level : Level)
    {rest : List Token} (hrest : rest.head? ≠ some (.keyword .escape)) :
    readOperand outer level (joinTokens [.keyword (joiner m)] (ts :: tss) ++ rest) =
      readJoiner outer (fs.foldl (Level.join m) (level.operand f)) rest := by
  induction hmore generalizing ts f level with
  | nil => exact hfirst outer level rest hrest
  | @cons us g tss fs hsecond _ ih =>
    have hjoiner : Token.keyword (joiner m) ≠ .keyword .escape := by
      cases m <;> exact nofun
    rw [joinTokens, List.append_assoc, List.append_assoc, List.singleton_append,
      hfirst outer level _ (head?_ne_escape hjoiner _), readJoiner_joiner, ih hsecond]
    rfl

/-- A group is read as an operand, however its terms are joined. -/
theorem isOperand_group (m : Combinator) {tss : List (List Token)} {fs : List Formula}
    (h : List.Forall₂ IsOperand tss fs) :
    ∃ f : Formula, (∀ v, f.holds v = m.combine (fs.map (Formula.holds v))) ∧ IsOperand (groupTokens m tss) f := by
  cases h with
  | nil =>
    refine ⟨.constant true, fun v => ?_, isOperand_primary fun rest _ => rfl⟩
    cases m <;> rfl
  | @cons ts f tss fs hfirst hmore =>
    cases hmore with
    | nil => exact ⟨f, fun v => (Combinator.combine_singleton m _).symm, hfirst⟩
    | @cons us g tss fs hsecond hmore =>
      obtain ⟨whole, hwhole, hholds⟩ := Level.formula?_foldl m f (g :: fs)
      refine ⟨whole, hholds, ?_⟩
      intro outer level rest hrest
      have hclose := head?_ne_escape (t := .sign ')') nofun rest
      show readOperand outer level
        (.sign '(' :: (joinTokens [.keyword (joiner m)] (ts :: us :: tss) ++ [.sign ')'] ++ rest)) = _
      rw [readOperand_parenthesis, List.append_assoc, List.singleton_append,
        readOperand_join m hfirst (.cons hsecond hmore) _ _ hclose, readJoiner_parenthesis hwhole]

/-! ## Primary conditions -/

theorem likeTest?_of_head {rest : List Token} (hrest : rest.head? ≠ some (.keyword .escape)) (negated : Bool)
    (k : Nat) : likeTest? negated (placed k :: rest) = some (.like negated k none, rest) := by
  cases rest with
  | nil => rfl
  | cons t rest =>
    cases t with
    | keyword k => cases k <;> first | rfl | exact absurd rfl hrest
    | _ => rfl

theorem positions?_join (bound count : Nat) (rest : List Token) :
    positions? (joinTokens [.sign ','] (placeTokens placed bound (count + 1)) ++ (.sign ')' :: rest)) =
      some (List.range' (bound + 1) (count + 1), rest) := by
  induction count generalizing bound with
  | zero => rfl
  | succ count ih =>
    have hnext := ih (bound + 1)
    rw [placeTokens] at hnext
    rw [placeTokens, placeTokens, joinTokens, List.append_assoc, List.append_assoc, List.singleton_append,
      List.singleton_append, placed, positions?, hnext]
    rfl

theorem listTest?_join (negated : Bool) (bound count : Nat) (rest : List Token) :
    listTest? negated
        (.sign '(' :: (joinTokens [.sign ','] (placeTokens placed bound (count + 1)) ++ [.sign ')']) ++ rest) =
      some (.inList negated (List.range' (bound + 1) (count + 1)), rest) := by
  rw [List.cons_append, List.append_assoc, List.singleton_append, listTest?, positions?_join]
  rfl

theorem primary?_column (column : Column) (ts : List Token) :
    primary? (columnTokens column ++ ts) =
      (test? ts).map fun (test, rest) => (.atom ⟨column.qualifier, column.name, test⟩, rest) := rfl

/-- A test that is read behind a column makes an operand of both. -/
theorem isOperand_column (column : Column) {ts : List Token} {test : Test}
    (h : ∀ rest : List Token, rest.head? ≠ some (.keyword .escape) → test? (ts ++ rest) = some (test, rest)) :
    IsOperand (columnTokens column ++ ts) (.atom ⟨column.qualifier, column.name, test⟩) := by
  apply isOperand_primary
  intro rest hrest
  rw [List.append_assoc, primary?_column, h rest hrest]
  rfl

theorem isOperand_truth (value : Bool) : IsOperand (truthTokens value) (.constant value) := by
  apply isOperand_primary
  intro rest _
  cases value <;> rfl

/-! ## Expressions -/

mutual

/-- The tokens of an expression are read as one operand, which has its value. -/
theorem isOperand_expr (b : Backend) (bound : Nat) : (e : Expr) →
    ∃ f : Formula, (∀ v, f.holds v = holdsAt v b bound e) ∧ IsOperand (exprTokens b placed bound e) f
  | .always => by
    rw [exprTokens]
    exact ⟨_, fun _ => rfl, isOperand_truth true⟩
  | .compare column op value => by
    rw [exprTokens]
    exact ⟨_, fun _ => rfl, isOperand_column column fun _ _ => rfl⟩
  | .like column pattern negated escaped => by
    rw [exprTokens]
    refine ⟨_, fun _ => rfl, isOperand_column column ?_⟩
    intro rest hrest
    cases escaped with
    | true => cases negated <;> rfl
    | false => cases negated <;> exact likeTest?_of_head hrest _ _
  | .inList column [] negated => by
    rw [exprTokens]
    exact ⟨_, fun _ => rfl, isOperand_truth negated⟩
  | .inList column (value :: values) negated => by
    rw [exprTokens]
    refine ⟨_, fun _ => rfl, isOperand_column column ?_⟩
    intro rest _
    cases negated <;> exact listTest?_join _ bound values.length rest
  | .isNull column negated => by
    rw [exprTokens]
    refine ⟨_, fun _ => rfl, isOperand_column column ?_⟩
    intro rest _
    cases negated <;> rfl
  | .isBool column value => by
    rw [exprTokens]
    exact ⟨_, fun _ => rfl, isOperand_column column fun _ _ => rfl⟩
  | .group m terms => by
    obtain ⟨fs, hholds, hoperands⟩ := isOperand_all b bound terms
    obtain ⟨f, hf, hoperand⟩ := isOperand_group m hoperands
    rw [exprTokens]
    refine ⟨f, fun v => ?_, hoperand⟩
    rw [hf, hholds, holdsAt]

theorem isOperand_all (b : Backend) (bound : Nat) : (terms : List Expr) →
    ∃ fs : List Formula, (∀ v, fs.map (Formula.holds v) = allHoldAt v b bound terms) ∧
      List.Forall₂ IsOperand (allTokens b placed bound terms) fs
  | [] => by
    rw [allTokens]
    exact ⟨[], fun _ => rfl, .nil⟩
  | term :: rest => by
    obtain ⟨f, hf, hoperand⟩ := isOperand_expr b bound term
    obtain ⟨fs, hfs, hoperands⟩ := isOperand_all b (bound + term.bindings.length) rest
    rw [allTokens]
    refine ⟨f :: fs, fun v => ?_, .cons hoperand hoperands⟩
    rw [List.map_cons, hf, hfs, allHoldAt]

end

/-! ## Positions -/

/-- The tokens with `count` placeholders, and the same tokens when `bound` values stand before theirs. -/
def Numbered (bound count : Nat) (ts us : List Token) : Prop :=
  ∀ rest, number bound (ts ++ rest) = us ++ number (bound + count) rest

/-- Lists of tokens whose placeholders follow one another. -/
inductive NumberedAll : (bound count : Nat) → List (List Token) → List (List Token) → Prop
  | nil (bound : Nat) : NumberedAll bound 0 [] []
  | cons {bound count more : Nat} {ts us : List Token} {tss uss : List (List Token)} (h : Numbered bound count ts us)
      (hmore : NumberedAll (bound + count) more tss uss) : NumberedAll bound (count + more) (ts :: tss) (us :: uss)

/-- Whether a token is neither a placeholder nor the word before a condition. -/
def Token.isPlain : Token → Bool
  | .placeholder _ | .keyword .filter => false
  | _ => true

theorem Numbered.append {bound count more : Nat} {ts us ts' us' : List Token} (h : Numbered bound count ts us)
    (hmore : Numbered (bound + count) more ts' us') : Numbered bound (count + more) (ts ++ ts') (us ++ us') := by
  intro rest
  rw [List.append_assoc, h, hmore, List.append_assoc, Nat.add_assoc]

theorem numbered_self {ts : List Token} (h : ts.all Token.isPlain = true) (bound : Nat) : Numbered bound 0 ts ts := by
  intro rest
  induction ts with
  | nil => rfl
  | cons t ts ih =>
    rw [List.all_cons, Bool.and_eq_true] at h
    rw [List.cons_append, List.cons_append, ← ih h.2]
    cases t with
    | placeholder position => cases h.1
    | _ => rfl

theorem numbered_mark (b : Backend) (bound : Nat) : Numbered bound 1 [mark b (bound + 1)] [placed (bound + 1)] := by
  intro rest
  cases b with
  | sqlite => rfl
  | duckdb => rfl
  | postgres =>
    show placed (bound + 1) :: number (max bound (bound + 1)) rest = _
    rw [Nat.max_eq_right (Nat.le_succ bound)]
    rfl

theorem numbered_join {sep : List Token} (hsep : sep.all Token.isPlain = true) {bound count : Nat}
    {tss uss : List (List Token)} (h : NumberedAll bound count tss uss) :
    Numbered bound count (joinTokens sep tss) (joinTokens sep uss) := by
  induction h with
  | nil => exact fun _ => rfl
  | @cons bound count more ts us tss uss h hmore ih =>
    cases hmore with
    | nil => exact h
    | cons hnext hmore => exact (h.append (numbered_self hsep _)).append ih

theorem numbered_group (m : Combinator) {bound count : Nat} {tss uss : List (List Token)}
    (h : NumberedAll bound count tss uss) : Numbered bound count (groupTokens m tss) (groupTokens m uss) := by
  have hkeyword : [Token.keyword (joiner m)].all Token.isPlain = true := by
    cases m <;> rfl
  have hjoin := numbered_join hkeyword h
  have hopen : Numbered bound 0 [.sign '('] [.sign '('] := fun _ => rfl
  have hclose : Numbered (bound + count) 0 [.sign ')'] [.sign ')'] := fun _ => rfl
  have hgroup := hopen.append (hjoin.append hclose)
  rw [Nat.add_zero, Nat.zero_add] at hgroup
  cases h with
  | nil => exact fun _ => rfl
  | cons h hmore =>
    cases hmore with
    | nil => exact h
    | cons hnext hmore => exact hgroup

theorem numbered_places (b : Backend) (bound count : Nat) :
    NumberedAll bound count (placeTokens (mark b) bound count) (placeTokens placed bound count) := by
  induction count generalizing bound with
  | zero => exact .nil bound
  | succ count ih =>
    have h := NumberedAll.cons (numbered_mark b bound) (ih (bound + 1))
    rwa [Nat.add_comm 1 count] at h

theorem numbered_column (column : Column) (bound : Nat) :
    Numbered bound 0 (columnTokens column) (columnTokens column) :=
  fun _ => rfl

mutual

/-- The placeholders of an expression stand for its bind values in order. -/
theorem numbered_expr (b : Backend) (bound : Nat) : (e : Expr) →
    Numbered bound e.bindings.length (exprTokens b (mark b) bound e) (exprTokens b placed bound e)
  | .always => fun _ => rfl
  | .compare column op value => by
    rw [exprTokens, exprTokens]
    have hop : Numbered bound 0 [.comparison op] [.comparison op] := fun _ => rfl
    exact (numbered_column column bound).append (hop.append (numbered_mark b bound))
  | .like column pattern negated escaped => by
    rw [exprTokens, exprTokens]
    have hword : (if negated then [.keyword .not, .keyword .like] else [.keyword .like]).all Token.isPlain = true := by
      cases negated <;> rfl
    have hescape : (if escaped then [.keyword .escape, .literal "\\"] else []).all Token.isPlain = true := by
      cases escaped <;> rfl
    exact (numbered_column column bound).append
      ((numbered_self hword bound).append ((numbered_mark b bound).append (numbered_self hescape (bound + 1))))
  | .inList column [] negated => fun _ => rfl
  | .inList column (value :: values) negated => by
    rw [exprTokens, exprTokens]
    have hword :
        (if negated then [.keyword .not, .keyword .among] else [.keyword .among]).all Token.isPlain = true := by
      cases negated <;> rfl
    have hcomma : [Token.sign ','].all Token.isPlain = true := rfl
    have hplaces := numbered_join hcomma (numbered_places b bound (value :: values).length)
    have hopen : Numbered bound 0 [.sign '('] [.sign '('] := fun _ => rfl
    have hclose : Numbered (bound + (value :: values).length) 0 [.sign ')'] [.sign ')'] := fun _ => rfl
    have h := (numbered_column column bound).append
      ((numbered_self hword bound).append (hopen.append (hplaces.append hclose)))
    simpa [Expr.bindings] using h
  | .isNull column negated => by
    rw [exprTokens, exprTokens]
    have hwords : (if negated then [.keyword .is, .keyword .not, .keyword .null]
        else [.keyword .is, .keyword .null]).all Token.isPlain = true := by
      cases negated <;> rfl
    exact (numbered_column column bound).append (numbered_self hwords bound)
  | .isBool column value => by
    rw [exprTokens, exprTokens]
    have hwords : Numbered bound 0 [.comparison .eq, .word (b.truth value)] [.comparison .eq, .word (b.truth value)] :=
      fun _ => rfl
    exact (numbered_column column bound).append hwords
  | .group m terms => by
    rw [exprTokens, exprTokens, Expr.bindings]
    exact numbered_group m (numbered_all b bound terms)

theorem numbered_all (b : Backend) (bound : Nat) : (terms : List Expr) →
    NumberedAll bound (Expr.allBindings terms).length (allTokens b (mark b) bound terms)
      (allTokens b placed bound terms)
  | [] => by
    rw [allTokens, allTokens]
    exact .nil bound
  | term :: rest => by
    rw [allTokens, allTokens, Expr.allBindings, List.length_append]
    exact .cons (numbered_expr b bound term) (numbered_all b _ rest)

end

/-! ## Queries -/

theorem isPlain_join {sep : List Token} (hsep : sep.all Token.isPlain = true) {tss : List (List Token)}
    (h : ∀ ts ∈ tss, ts.all Token.isPlain = true) : (joinTokens sep tss).all Token.isPlain = true := by
  fun_induction joinTokens sep tss with
  | case1 => rfl
  | case2 ts => exact h ts List.mem_cons_self
  | case3 ts us rest ih =>
    rw [List.all_append, List.all_append, h ts List.mem_cons_self, hsep,
      ih fun us' hus => h us' (List.mem_cons_of_mem _ hus)]
    rfl

theorem isPlain_joined (j : Join) : (joinedTokens j).all Token.isPlain = true := by
  have hkind : (kindTokens j.kind).all Token.isPlain = true := by
    cases j.kind <;> rfl
  have halias : (aliasTokens j).all Token.isPlain = true := by
    unfold aliasTokens
    split <;> rfl
  unfold joinedTokens
  simp only [List.all_append, hkind, halias]
  rfl

theorem isPlain_order (o : Order) : (orderTokens o).all Token.isPlain = true := by
  unfold orderTokens
  split <;> rfl

theorem isPlain_head (q : Select) : (headTokens q).all Token.isPlain = true := by
  rw [headTokens, List.all_append, List.all_flatMap, List.all_eq_true.2 fun j _ => isPlain_joined j]
  rfl

theorem isPlain_tail (q : Select) : (tailTokens q).all Token.isPlain = true := by
  have hgroup : (groupByTokens q.groupBy).all Token.isPlain = true := by
    cases q.groupBy <;> rfl
  rw [tailTokens, List.all_append, hgroup, Bool.true_and]
  cases q.orders with
  | nil => rfl
  | cons first rest =>
    rw [orderByTokens, List.all_append]
    · have hterms : (joinTokens [.sign ','] ((first :: rest).map orderTokens)).all Token.isPlain = true := by
        refine isPlain_join rfl ?_
        intro ts hts
        obtain ⟨o, -, rfl⟩ := List.mem_map.1 hts
        exact isPlain_order o
      rw [hterms]
      rfl
    · exact nofun

theorem endsCondition_tail (q : Select) : endsCondition (tailTokens q) = true := by
  unfold tailTokens
  cases q.groupBy with
  | some column => rfl
  | none => cases q.orders <;> rfl

/-- A condition ends where the query does, and where it is grouped or ordered. -/
theorem readJoiner_end {ts : List Token} (h : endsCondition ts = true) (level : Level) :
    readJoiner [] level ts = level.formula?.map fun f => (f, ts) := by
  unfold endsCondition at h
  split at h
  · rw [readJoiner.eq_def]
  · rw [readJoiner.eq_def]
  · rw [readJoiner.eq_def]
  · cases h

theorem numbered_where (b : Backend) (filters : List Expr) :
    Numbered 0 (Expr.allBindings filters).length (whereTokens b (mark b) filters) (whereTokens b placed filters) := by
  cases filters with
  | nil => exact fun _ => rfl
  | cons first rest =>
    have hword : Numbered 0 0 [.keyword .filter] [.keyword .filter] := fun _ => rfl
    have hand : [Token.keyword .and].all Token.isPlain = true := rfl
    have h := hword.append (numbered_join hand (numbered_all b 0 (first :: rest)))
    rwa [Nat.zero_add] at h

/-- The tokens of a query with the positions of its bind values. -/
theorem number_selectTokens (b : Backend) (q : Select) :
    number 0 (selectTokens b (mark b) q) = selectTokens b placed q := by
  have hhead := numbered_self (isPlain_head q) 0
  have htail := numbered_self (isPlain_tail q)
  have h := ((hhead.append (numbered_where b q.filters)).append (htail _)) []
  rwa [List.append_nil, number, List.append_nil] at h

theorem dropWhile_of_isPlain {ts : List Token} (h : ts.all Token.isPlain = true) (rest : List Token) :
    (ts ++ rest).dropWhile (fun t => t != .keyword .filter) = rest.dropWhile fun t => t != .keyword .filter := by
  apply List.dropWhile_append_of_pos
  intro t ht
  have hplain := List.all_eq_true.1 h t ht
  rw [bne_iff_ne]
  rintro rfl
  cases hplain

theorem head?_of_endsCondition {ts : List Token} (h : endsCondition ts = true) :
    ts.head? ≠ some (.keyword .escape) := by
  unfold endsCondition at h
  split at h
  · exact nofun
  · exact nofun
  · exact nofun
  · cases h

/-- The filters of a query are read as a condition that has their truth value. -/
theorem readOperand_filters (b : Backend) (first : Expr) (rest : List Expr) {tail : List Token}
    (htail : endsCondition tail = true) :
    ∃ f : Formula, readOperand [] .start (joinTokens [.keyword .and] (allTokens b placed 0 (first :: rest)) ++ tail) =
      some (f, tail) ∧ ∀ v, f.holds v = (allHoldAt v b 0 (first :: rest)).all id := by
  obtain ⟨f, hf, hoperand⟩ := isOperand_expr b 0 first
  obtain ⟨fs, hfs, hoperands⟩ := isOperand_all b (0 + first.bindings.length) rest
  obtain ⟨whole, hwhole, hholds⟩ := Level.formula?_foldl .and f fs
  refine ⟨whole, ?_, fun v => ?_⟩
  · have hread := readOperand_join .and hoperand hoperands [] .start (head?_of_endsCondition htail)
    rw [allTokens, ← joiner, hread, readJoiner_end htail, hwhole]
    rfl
  · rw [hholds, Combinator.combine_and, List.map_cons, hf, hfs, allHoldAt]

/-- The condition of a query has the truth value of its filters, all of which have to hold. -/
theorem condition?_sql (b : Backend) (q : Select) :
    ∃ f : Formula, condition? (q.sql b) = some f ∧ ∀ v, f.holds v = (allHoldAt v b 0 q.filters).all id := by
  obtain ⟨htokens, hclosed⟩ := reads_sql b q
  unfold condition?
  rw [htokens, if_neg hclosed, number_selectTokens, selectTokens, List.append_assoc,
    dropWhile_of_isPlain (isPlain_head q)]
  cases q.filters with
  | nil =>
    have hnone : (tailTokens q).dropWhile (fun t => t != .keyword .filter) = [] := by
      have h := dropWhile_of_isPlain (isPlain_tail q) []
      rwa [List.append_nil] at h
    rw [whereTokens, List.nil_append, hnone]
    exact ⟨.constant true, rfl, fun _ => rfl⟩
  | cons first rest =>
    obtain ⟨f, hread, hholds⟩ := readOperand_filters b first rest (endsCondition_tail q)
    refine ⟨f, ?_, hholds⟩
    have hstart : (whereTokens b placed (first :: rest) ++ tailTokens q).dropWhile (fun t => t != .keyword .filter) =
        .keyword .filter :: (joinTokens [.keyword .and] (allTokens b placed 0 (first :: rest)) ++ tailTokens q) := rfl
    rw [hstart]
    simp only [hread]
    exact if_pos (endsCondition_tail q)

example : condition? (Select.sql .sqlite { Select.all "t" with
      filters := [.isNull ⟨"t", "a", .text⟩ false,
        .group .or [.isNull ⟨"t", "b", .text⟩ false, .isNull ⟨"t", "c", .text⟩ true]] }) =
    some (.and (.atom ⟨"t", "a", .isNull false⟩)
      (.or (.atom ⟨"t", "b", .isNull false⟩) (.atom ⟨"t", "c", .isNull true⟩))) := by
  decide +kernel

end Criteria.Sql
