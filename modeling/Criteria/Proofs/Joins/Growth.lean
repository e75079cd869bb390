import Criteria.Compile
import Mathlib.Logic.Relation

/-!
# How a join table grows

* `Extends`, `Grows` — one more join, and any number of them, each from the root or from a join that is already there.
* `Continues` — the joins of an earlier table are a prefix; what is remembered there is remembered later too.
* `WellFormed` — every join stands at its index behind its parent, is remembered under its relationship and parent as
  the only one, and has the entity, table and columns that the declared relationship dictates; `Grows.wellFormed`.
* `join_grows`, `follow_grows`, `resolve_grows` — resolving an attribute grows the table, whether or not it succeeds.
-/

namespace Criteria

/-- What is remembered of a join: its index, under its relationship and parent. -/
def Join.entry (j : Join) : (String × Option Nat) × Nat := ((j.relationship, j.parent), j.index)

/-- What a declared relationship from an entity to another dictates about a join. -/
structure Join.Follows (j : Join) (source : Entity) (r : Relationship) (target : Entity) : Prop where
  relationship : source.relationship? j.relationship = some r
  entity : j.entity = target.name
  table : j.table = target.table
  columns : (j.column, j.parentColumn) = JoinTable.joinColumns source target r

namespace JoinTable

open Relation (ReflTransGen)

variable {c : Catalog} {t t' u : JoinTable}

/-! ## Tables that go on from another -/

/-- The same root, and further joins behind those that are there; what is remembered stays. -/
structure Continues (t t' : JoinTable) : Prop where
  root : t'.root = t.root
  joins : t.joins <+: t'.joins
  memo : t.memo <+: t'.memo

theorem Continues.refl (t : JoinTable) : Continues t t := ⟨rfl, List.prefix_refl _, List.prefix_refl _⟩

theorem Continues.trans (h : Continues t t') (h' : Continues t' u) : Continues t u :=
  ⟨h'.root.trans h.root, h.joins.trans h'.joins, h.memo.trans h'.memo⟩

/-- The root, or the index of a join. -/
def HasPlace (t : JoinTable) (place : Option Nat) : Prop := ∀ index ∈ place, index < t.joins.length

theorem hasPlace_none (t : JoinTable) : t.HasPlace none := fun _ h => by cases h

theorem hasPlace_some {index : Nat} {j : Join} (hj : t.joins[index]? = some j) : t.HasPlace (some index) := by
  intro i hi
  cases hi
  exact (List.getElem?_eq_some_iff.1 hj).1

theorem Continues.getElem? (h : Continues t t') {index : Nat} (hi : index < t.joins.length) :
    t'.joins[index]? = t.joins[index]? := by
  obtain ⟨more, hmore⟩ := h.joins
  rw [← hmore, List.getElem?_append_left hi]

theorem Continues.qualifier (h : Continues t t') {place : Option Nat} (hp : t.HasPlace place) :
    t'.qualifier place = t.qualifier place := by
  cases place with
  | none => exact congrArg Entity.table h.root
  | some index => simp only [JoinTable.qualifier, h.getElem? (hp index rfl), h.root]

theorem Continues.entityAt (h : Continues t t') {place : Option Nat} (hp : t.HasPlace place) :
    t'.entityAt c place = t.entityAt c place := by
  cases place with
  | none => exact congrArg Except.ok h.root
  | some index => simp only [JoinTable.entityAt, h.getElem? (hp index rfl), h.root]

theorem Continues.get?_memo (h : Continues t t') {key : String × Option Nat} {index : Nat}
    (hi : t.memo.get? key = some index) : t'.memo.get? key = some index := by
  obtain ⟨more, hmore⟩ := h.memo
  rw [← hmore, Keyed.get?_append, hi]
  rfl

/-! ## One more join -/

/-- The join that `extend` puts behind the others. -/
def newJoin (t : JoinTable) (relationship : String) (parent : Option Nat) (source target : Entity) (r : Relationship) :
    Join :=
  ⟨t.joins.length, parent, relationship, .left, target.name, target.table,
    (aliasFor t.uses relationship target.table source.table).1, (joinColumns source target r).1, t.qualifier parent,
    (joinColumns source target r).2⟩

/-- A declared relationship from a place, of which no join is remembered, is joined. -/
inductive Extends (c : Catalog) (t : JoinTable) : JoinTable → Prop
  | join {relationship : String} {parent : Option Nat} {source target : Entity} {r : Relationship}
      (hparent : t.HasPlace parent) (hnew : t.memo.get? (relationship, parent) = none)
      (hsource : t.entityAt c parent = .ok source) (hr : source.relationship? relationship = some r)
      (htarget : c.entity? r.target = some target) : Extends c t (t.extend relationship parent source target r)

/-- Any number of joins more. -/
abbrev Grows (c : Catalog) : JoinTable → JoinTable → Prop := ReflTransGen (Extends c)

theorem joins_extend (t : JoinTable) (relationship : String) (parent : Option Nat) (source target : Entity)
    (r : Relationship) : (t.extend relationship parent source target r).joins =
      t.joins ++ [t.newJoin relationship parent source target r] := rfl

theorem memo_extend {relationship : String} {parent : Option Nat} (hnew : t.memo.get? (relationship, parent) = none)
    (source target : Entity) (r : Relationship) : (t.extend relationship parent source target r).memo =
      t.memo ++ [(t.newJoin relationship parent source target r).entry] :=
  Keyed.put_of_notMem (Keyed.get?_eq_none.1 hnew) _

theorem Extends.continues (h : Extends c t t') : Continues t t' := by
  cases h with
  | join hparent hnew hsource hr htarget =>
    refine ⟨rfl, List.prefix_append _ _, ?_⟩
    rw [memo_extend hnew]
    exact List.prefix_append _ _

theorem Grows.continues (h : Grows c t t') : Continues t t' := by
  induction h with
  | refl => exact .refl _
  | tail _ hstep ih => exact ih.trans hstep.continues

/-- Growth to the table that a step is known to give. -/
theorem Grows.to {α : Type} {step : JoinTable × α} {result : α} (h : Grows c t step.1) (hstep : step = (t', result)) :
    Grows c t t' := by
  rwa [hstep] at h

/-! ## Well-formed tables -/

/-- The invariant of join tables. -/
structure WellFormed (c : Catalog) (t : JoinTable) : Prop where
  index_eq : ∀ {i : Nat} {j : Join}, t.joins[i]? = some j → j.index = i
  parent_lt : ∀ {i p : Nat} {j : Join}, t.joins[i]? = some j → j.parent = some p → p < i
  /-- There is one entry for each join, and no other. -/
  memo_eq : t.memo = t.joins.map Join.entry
  /-- There is one join for each relationship and parent. -/
  unique : ∀ {i i' : Nat} {j j' : Join}, t.joins[i]? = some j → t.joins[i']? = some j' →
    j.relationship = j'.relationship → j.parent = j'.parent → i = i'
  declared : ∀ {i : Nat} {j : Join}, t.joins[i]? = some j → ∃ source r target,
    t.entityAt c j.parent = .ok source ∧ c.entity? r.target = some target ∧ j.Follows source r target
  qualifier_eq : ∀ {i : Nat} {j : Join}, t.joins[i]? = some j → j.parentQualifier = t.qualifier j.parent

theorem wellFormed_start (c : Catalog) (root : Entity) : WellFormed c (start root) where
  index_eq h := by simp [start] at h
  parent_lt h := by simp [start] at h
  memo_eq := rfl
  unique h := by simp [start] at h
  declared h := by simp [start] at h
  qualifier_eq h := by simp [start] at h

theorem WellFormed.hasPlace_parent (hw : WellFormed c t) {i : Nat} {j : Join} (hj : t.joins[i]? = some j) :
    t.HasPlace j.parent := by
  intro p hp
  obtain ⟨hi, -⟩ := List.getElem?_eq_some_iff.1 hj
  exact Nat.lt_trans (hw.parent_lt hj hp) hi

theorem WellFormed.names_memo (hw : WellFormed c t) : t.memo.names = t.joins.map fun j => (j.relationship, j.parent) := by
  rw [hw.memo_eq, Keyed.names, List.map_map]
  rfl

theorem WellFormed.nodup_names_memo (hw : WellFormed c t) : t.memo.names.Nodup := by
  rw [hw.names_memo, List.Nodup, List.pairwise_map, List.pairwise_iff_getElem]
  intro i i' hi hi' hlt hkey
  simp only [Prod.mk.injEq] at hkey
  have hsame := hw.unique (List.getElem?_eq_getElem hi) (List.getElem?_eq_getElem hi') hkey.1 hkey.2
  omega

/-- The index that is remembered is that of the join. -/
theorem WellFormed.get?_memo (hw : WellFormed c t) {relationship : String} {parent : Option Nat} {index : Nat} :
    t.memo.get? (relationship, parent) = some index ↔
      ∃ j, t.joins[index]? = some j ∧ j.relationship = relationship ∧ j.parent = parent := by
  constructor
  · intro h
    have hmem := Keyed.mem_of_get? h
    rw [hw.memo_eq, List.mem_map] at hmem
    obtain ⟨j, hj, hentry⟩ := hmem
    simp only [Join.entry, Prod.mk.injEq] at hentry
    obtain ⟨⟨hrel, hpar⟩, hindex⟩ := hentry
    obtain ⟨i, hi⟩ := List.mem_iff_getElem?.1 hj
    rw [← hindex, hw.index_eq hi]
    exact ⟨j, hi, hrel, hpar⟩
  · rintro ⟨j, hj, rfl, rfl⟩
    refine Keyed.get?_of_mem hw.nodup_names_memo ?_
    rw [hw.memo_eq, ← hw.index_eq hj]
    exact List.mem_map_of_mem (List.mem_of_getElem? hj)

/-- A join of an extended table is an earlier one or the new one. -/
theorem getElem?_extend {relationship : String} {parent : Option Nat} {source target : Entity} {r : Relationship}
    {i : Nat} {j : Join} (h : (t.extend relationship parent source target r).joins[i]? = some j) :
    t.joins[i]? = some j ∨ i = t.joins.length ∧ j = t.newJoin relationship parent source target r := by
  rw [joins_extend] at h
  rcases Nat.lt_or_ge i t.joins.length with hi | hi
  · rw [List.getElem?_append_left hi] at h
    exact .inl h
  · rw [List.getElem?_append_right hi, List.getElem?_singleton] at h
    split at h
    · exact .inr ⟨by omega, (Option.some.inj h).symm⟩
    · cases h

/-- A parent of a join that is not remembered has no other join of its relationship. -/
theorem WellFormed.ne_of_get?_eq_none (hw : WellFormed c t) {relationship : String} {parent : Option Nat} {i : Nat}
    {j : Join} (hnew : t.memo.get? (relationship, parent) = none) (hj : t.joins[i]? = some j)
    (hrel : j.relationship = relationship) : j.parent ≠ parent := by
  intro hpar
  rw [hw.get?_memo.2 ⟨j, hj, hrel, hpar⟩] at hnew
  cases hnew

theorem Extends.wellFormed (h : Extends c t t') (hw : WellFormed c t) : WellFormed c t' := by
  have hcont := h.continues
  cases h with
  | @join relationship parent source target r hparent hnew hsource hr htarget =>
    constructor
    case index_eq =>
      intro i j hj
      rcases getElem?_extend hj with hj | ⟨rfl, rfl⟩
      · exact hw.index_eq hj
      · rfl
    case parent_lt =>
      intro i p j hj hp
      rcases getElem?_extend hj with hj | ⟨rfl, rfl⟩
      · exact hw.parent_lt hj hp
      · exact hparent p hp
    case memo_eq =>
      rw [memo_extend hnew, joins_extend, hw.memo_eq, List.map_append, List.map_singleton]
    case unique =>
      intro i i' j j' hj hj' hrel hpar
      rcases getElem?_extend hj with hj | ⟨rfl, rfl⟩ <;> rcases getElem?_extend hj' with hj' | ⟨rfl, rfl⟩
      · exact hw.unique hj hj' hrel hpar
      · exact absurd hpar (hw.ne_of_get?_eq_none hnew hj hrel)
      · exact absurd hpar.symm (hw.ne_of_get?_eq_none hnew hj' hrel.symm)
      · rfl
    case declared =>
      intro i j hj
      rcases getElem?_extend hj with hj | ⟨rfl, rfl⟩
      · obtain ⟨source', r', target', hs, ht, hf⟩ := hw.declared hj
        exact ⟨source', r', target', (hcont.entityAt (hw.hasPlace_parent hj)).trans hs, ht, hf⟩
      · exact ⟨source, r, target, (hcont.entityAt hparent).trans hsource, htarget, ⟨hr, rfl, rfl, rfl⟩⟩
    case qualifier_eq =>
      intro i j hj
      rcases getElem?_extend hj with hj | ⟨rfl, rfl⟩
      · exact (hw.qualifier_eq hj).trans (hcont.qualifier (hw.hasPlace_parent hj)).symm
      · exact (hcont.qualifier hparent).symm

theorem Grows.wellFormed (h : Grows c t t') (hw : WellFormed c t) : WellFormed c t' := by
  induction h with
  | refl => exact hw
  | tail _ hstep ih => exact hstep.wellFormed ih

/-! ## Joins on demand -/

/-- A join is remembered where it is, or is made behind the others. -/
theorem join_grows (hw : WellFormed c t) {relationship : String} {parent : Option Nat} (hp : t.HasPlace parent)
    {index : Nat} (h : t.join c relationship parent = .ok (t', index)) :
    Grows c t t' ∧ ∃ j, t'.joins[index]? = some j ∧ j.relationship = relationship ∧ j.parent = parent := by
  unfold join at h
  split at h
  · rename_i i hi
    cases h
    exact ⟨.refl, hw.get?_memo.1 hi⟩
  · rename_i hnew
    split at h
    · cases h
    · rename_i source hsource
      split at h
      · cases h
      · rename_i r hr
        split at h
        · cases h
        · rename_i target htarget
          cases h
          have hgrow := Relation.ReflTransGen.single (Extends.join hp hnew hsource hr htarget)
          refine ⟨hgrow, t.newJoin relationship parent source target r, ?_, rfl, rfl⟩
          rw [joins_extend, List.getElem?_append_right (Nat.le_refl _), Nat.sub_self]
          rfl

theorem follow_grows (hw : WellFormed c t) {parent : Option Nat} (hp : t.HasPlace parent) (hops : List Hop) :
    Grows c t (t.follow c parent hops).1 := by
  induction hops generalizing t parent with
  | nil => exact .refl
  | cons hop hops ih =>
    unfold follow
    split
    · exact .refl
    · rename_i u index hjoin
      obtain ⟨hgrow, j, hj, -⟩ := join_grows hw hp hjoin
      exact hgrow.trans (ih (hgrow.wellFormed hw) (hasPlace_some hj))

theorem resolve_grows (hw : WellFormed c t) (path : AttributePath) : Grows c t (t.resolve c path).1 := by
  have h := follow_grows hw (hasPlace_none t) path.hops
  unfold resolve
  split <;> rename_i heq <;> exact Grows.to h heq

theorem resolveName_grows (hw : WellFormed c t) (name : String) : Grows c t (t.resolveName c name).1 := by
  unfold resolveName
  split
  · exact .refl
  · exact resolve_grows hw _

end JoinTable

end Criteria
