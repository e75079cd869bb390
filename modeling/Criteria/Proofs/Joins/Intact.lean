import Criteria.Proofs.Joins.Passes

/-!
# Join tables stay intact

* `Stands` — the root or a join at a place, with its qualifier and its entity.
* `InRange` — while hops are followed, no index is looked up at which there is no join.
* `Intact` — every join carries its index, stands behind its parent, is remembered once under its relationship and
  parent, and has what the relationship of its parent dictates; nothing else is remembered, and all hops are in range.
* `performAll` — operations one after the other; `continues_performAll`: without a restart they only add joins at the
  end.
* `intact_performAll` — whatever has been done with a table, and whether or not it succeeded, the table is intact.
-/

namespace Criteria.JoinTable

variable {c : Catalog} {t u : JoinTable}

/-- What stands at a place: the qualifier of its columns, and its entity. -/
inductive Stands (c : Catalog) (t : JoinTable) : Option Nat → String → Entity → Prop
  | root : Stands c t none t.root.table t.root
  | join {index : Nat} {j : Join} {e : Entity} (hj : t.joins[index]? = some j) (he : c.entity? j.entity = some e) :
      Stands c t (some index) j.aliasName e

theorem stands_of_entityAt {place : Option Nat} {e : Entity} (hp : t.HasPlace place) (h : t.entityAt c place = .ok e) :
    Stands c t place (t.qualifier place) e := by
  cases place with
  | none =>
    cases h
    exact .root
  | some index =>
    obtain ⟨j, hj⟩ : ∃ j, t.joins[index]? = some j := ⟨_, List.getElem?_eq_getElem (hp index rfl)⟩
    simp only [entityAt, hj, Option.map_some, Option.getD_some] at h
    split at h
    · rename_i e' he
      cases h
      have hstands : Stands c t (some index) j.aliasName e := .join hj he
      simpa [qualifier, hj] using hstands
    · cases h

/-- Hops are followed from a place in range: the root or a join stands there, and where each hop leads, by the table that
is left then. The parents of new joins and the end of the hops are looked up at no other places. -/
def InRange (c : Catalog) : JoinTable → Option Nat → List Hop → Prop
  | t, place, [] => t.HasPlace place
  | t, place, hop :: hops => t.HasPlace place ∧
    ∀ u index, t.join c hop.relationship place = .ok (u, index) → InRange c u (some index) hops

/-- What a join table is never without. -/
structure Intact (c : Catalog) (t : JoinTable) : Prop where
  index : ∀ (i : Nat) (j : Join), t.joins[i]? = some j → j.index = i
  parent : ∀ (i : Nat) (j : Join) (p : Nat), t.joins[i]? = some j → j.parent = some p → p < i
  /-- No two joins have the same relationship and parent. -/
  keys : (t.joins.map fun j => (j.relationship, j.parent)).Nodup
  /-- One entry is remembered for each join, and no other. -/
  entries : t.memo.Perm (t.joins.map Join.entry)
  /-- What is remembered of a relationship and a parent is the index of their join. -/
  memo : ∀ relationship parent index, t.memo.get? (relationship, parent) = some index ↔
    ∃ j, t.joins[index]? = some j ∧ j.relationship = relationship ∧ j.parent = parent
  /-- No two places have the same relationships on the way from the root. -/
  chain : ∀ place place' chain, Spells t.joins place chain → Spells t.joins place' chain → place = place'
  dictated : ∀ (i : Nat) (j : Join), t.joins[i]? = some j → ∃ source r target,
    Stands c t j.parent j.parentQualifier source ∧
    source.relationship? j.relationship = some r ∧ c.entity? r.target = some target ∧ j.entity = target.name ∧
    j.table = target.table ∧
    (r.kind = .belongsTo → j.column = target.primaryKey ∧ j.parentColumn = r.foreignKey) ∧
    (r.kind ≠ .belongsTo → j.column = r.foreignKey ∧ j.parentColumn = source.primaryKey)
  /-- Whatever hops are followed from the root, no index is out of range. -/
  inRange : ∀ hops, InRange c t none hops

theorem columns_of_follows {j : Join} {source target : Entity} {r : Relationship} (h : j.Follows source r target) :
    (r.kind = .belongsTo → j.column = target.primaryKey ∧ j.parentColumn = r.foreignKey) ∧
      (r.kind ≠ .belongsTo → j.column = r.foreignKey ∧ j.parentColumn = source.primaryKey) := by
  have hcolumns := h.columns
  unfold joinColumns at hcolumns
  cases hkind : r.kind <;> simpa [hkind] using hcolumns

theorem WellFormed.inRange (hw : WellFormed c t) {place : Option Nat} (hp : t.HasPlace place) (hops : List Hop) :
    InRange c t place hops := by
  induction hops generalizing t place with
  | nil => exact hp
  | cons hop hops ih =>
    refine ⟨hp, fun u index hjoin => ?_⟩
    obtain ⟨hgrow, j, hj, -⟩ := join_grows hw hp hjoin
    exact ih (hgrow.wellFormed hw) (hasPlace_some hj)

theorem WellFormed.intact (hw : WellFormed c t) : Intact c t where
  index _ _ hj := hw.index_eq hj
  parent _ _ _ hj hp := hw.parent_lt hj hp
  keys := hw.names_memo ▸ hw.nodup_names_memo
  entries := .of_eq hw.memo_eq
  memo _ _ _ := hw.get?_memo
  chain _ _ _ h h' := h.inj hw h'
  dictated i j hj := by
    obtain ⟨source, r, target, hsource, htarget, hfollows⟩ := hw.declared hj
    have hstands := stands_of_entityAt (hw.hasPlace_parent hj) hsource
    rw [← hw.qualifier_eq hj] at hstands
    exact ⟨source, r, target, hstands, hfollows.relationship, htarget, hfollows.entity, hfollows.table,
      columns_of_follows hfollows⟩
  inRange := hw.inRange (hasPlace_none t)

/-! ## Operations one after the other -/

/-- The table after operations, whether or not they succeed. -/
def performAll (c : Catalog) (t : JoinTable) (ops : List Operation) : JoinTable := ops.foldl (perform c) t

/-- Whether an operation begins by forgetting all joins. -/
def Operation.restarts : Operation → Bool
  | .evaluate .. | .reset => true
  | _ => false

theorem Reachable.performAll {root : Entity} (h : Reachable c root t) (ops : List Operation) :
    Reachable c root (t.performAll c ops) := by
  induction ops generalizing t with
  | nil => exact h
  | cons op ops ih => exact ih (h.perform op)

theorem perform_continues (hw : WellFormed c t) {op : Operation} (hop : op.restarts = false) :
    Continues t (t.perform c op) := by
  cases op with
  | resolve path => exact Grows.continues (resolve_grows hw path)
  | resolveName name => exact Grows.continues (resolveName_grows hw name)
  | compile node => exact Grows.continues (compileNode_grows hw node)
  | evaluate => cases hop
  | reset => cases hop

theorem continues_performAll {root : Entity} (h : Reachable c root t) {ops : List Operation}
    (hops : ∀ op ∈ ops, op.restarts = false) : Continues t (t.performAll c ops) := by
  induction ops generalizing t with
  | nil => exact .refl t
  | cons op ops ih =>
    have hfirst := perform_continues h.wellFormed (hops op List.mem_cons_self)
    exact hfirst.trans (ih (h.perform op) fun op hop => hops op (List.mem_cons_of_mem _ hop))

/-- Compiling is resolving some of the attributes, the first of them in order. -/
theorem perform_compile (c : Catalog) (t : JoinTable) (node : Node) : ∃ pre, pre <+: leafPaths node.leaves ∧
    t.perform c (.compile node) = t.performAll c (pre.map .resolve) := by
  obtain ⟨pre, hpre, heq⟩ := (compileNode_passes c t node).eq_foldl
  refine ⟨pre, hpre, ?_⟩
  rw [JoinTable.performAll, List.foldl_map]
  exact heq

/-- Whatever has been done with a join table, it is intact; from there on joins are only added at the end, and what is
remembered stays, until it restarts, which leaves none; and compiling leaves what resolving attributes leaves. -/
theorem intact_performAll (c : Catalog) (root : Entity) (ops : List Operation) :
    Intact c ((start root).performAll c ops) ∧
      (∀ more : List Operation, (∀ op ∈ more, op.restarts = false) →
        ((start root).performAll c ops).joins <+: ((start root).performAll c (ops ++ more)).joins ∧
          ∀ key index, ((start root).performAll c ops).memo.get? key = some index →
            ((start root).performAll c (ops ++ more)).memo.get? key = some index) ∧
      (start root).performAll c (ops ++ [.reset]) = start root ∧
      ∀ node, ∃ pre, pre <+: leafPaths node.leaves ∧
        (start root).performAll c (ops ++ [.compile node]) = (start root).performAll c (ops ++ pre.map .resolve) := by
  have happend (more : List Operation) :
      (start root).performAll c (ops ++ more) = ((start root).performAll c ops).performAll c more :=
    List.foldl_append
  have h : Reachable c root ((start root).performAll c ops) := Reachable.start.performAll ops
  refine ⟨h.wellFormed.intact, ?_, ?_, ?_⟩
  · intro more hmore
    rw [happend]
    have hcont := continues_performAll h hmore
    exact ⟨hcont.joins, fun _ _ => hcont.get?_memo⟩
  · rw [happend]
    exact congrArg start h.grows.continues.root
  · intro node
    obtain ⟨pre, hpre, heq⟩ := perform_compile c ((start root).performAll c ops) node
    exact ⟨pre, hpre, by rw [happend, happend, ← heq]; rfl⟩

end Criteria.JoinTable
