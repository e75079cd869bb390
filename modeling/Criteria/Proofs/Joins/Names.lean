import Criteria.Proofs.Joins.Aliases
import Criteria.Proofs.Joins.Intact
import Criteria.Proofs.Joins.Stages

/-!
# Names and their joins

A name that resolves leads to one join, in whatever state the table is, and leads there again until the table restarts.

* `OnWay` — the joins on the way from the root to a place; `onWay_of_follow`: all joins that hops add are such.
* `follow_of_place?` — hops whose chain is joined lead to its place, and add nothing.
* `Arrives` — what a name finds: the only place with its chain, the entity and the column there, and joins added for no
  other purpose.
* `Reachable.resolveName_arrives` — a name is joined just if it resolves, then it arrives, and every name with the same
  chain arrives there later.
-/

namespace Criteria.JoinTable

variable {c : Catalog} {t u : JoinTable}

/-! ## The way to a place -/

/-- The way from the root to a place, along the parents of its join, passes the join at `i`. -/
inductive OnWay (joins : List Join) (i : Nat) : Option Nat → Prop
  | here : OnWay joins i (some i)
  | further {index : Nat} {j : Join} (hj : joins[index]? = some j) (h : OnWay joins i j.parent) :
      OnWay joins i (some index)

theorem OnWay.trans {joins : List Join} {i k : Nat} {place : Option Nat} (h : OnWay joins i (some k))
    (h' : OnWay joins k place) : OnWay joins i place := by
  induction h' with
  | here => exact h
  | further hj _ ih => exact .further hj ih

/-- A chain that starts at a join passes it. -/
theorem onWay_of_place? (hw : WellFormed c t) {index : Nat} {last : Option Nat} {chain : List String}
    (h : t.place? (some index) chain = some last) : OnWay t.joins index last := by
  induction chain generalizing index with
  | nil =>
    cases h
    exact .here
  | cons relationship rest ih =>
    cases hnext : t.memo.get? (relationship, some index) with
    | none => simp [place?, hnext] at h
    | some next =>
      rw [place?_cons hnext] at h
      obtain ⟨j, hj, -, hparent⟩ := hw.get?_memo.1 hnext
      have hstep : OnWay t.joins index (some next) := .further hj (hparent ▸ .here)
      exact hstep.trans (ih h)

/-- The joins that hops add are on the way to where they lead. -/
theorem onWay_of_follow (hw : WellFormed c t) {parent last : Option Nat} (hp : t.HasPlace parent) {hops : List Hop}
    (h : t.follow c parent hops = (u, .ok last)) {i : Nat} (hold : t.joins.length ≤ i) (hi : i < u.joins.length) :
    OnWay u.joins i last := by
  induction hops generalizing t parent with
  | nil =>
    cases h
    omega
  | cons hop hops ih =>
    unfold follow at h
    split at h
    · cases h
    · rename_i v index hjoin
      obtain ⟨hgrow, j, hj, -, -⟩ := join_grows hw hp hjoin
      have hwv := hgrow.wellFormed hw
      have hplace := hasPlace_some hj
      -- the first hop finds its join, or adds the one from which the other hops go on
      by_cases hlater : v.joins.length ≤ i
      · exact ih hwv hplace h hlater
      · rcases join_eq_ok hjoin with ⟨-, rfl⟩ | ⟨-, rfl, source, target, r, rfl⟩
        · exact absurd hold hlater
        · have hlast : i = t.joins.length := by
            rw [joins_extend, List.length_append, List.length_singleton] at hlater
            omega
          have hwu := Grows.wellFormed (Grows.to (follow_grows hwv hplace hops) h) hwv
          rw [hlast]
          exact onWay_of_place? hwu (follow_eq_ok hwv hplace h)

/-! ## Following a chain again -/

theorem follow_of_place? {parent last : Option Nat} {hops : List Hop}
    (h : t.place? parent (hops.map Hop.relationship) = some last) : t.follow c parent hops = (t, .ok last) := by
  induction hops generalizing parent with
  | nil =>
    cases h
    rfl
  | cons hop hops ih =>
    cases hnext : t.memo.get? (hop.relationship, parent) with
    | none => simp [place?, hnext] at h
    | some next =>
      rw [List.map_cons, place?_cons hnext] at h
      have hjoin : t.join c hop.relationship parent = .ok (t, next) := by
        unfold join
        rw [hnext]
      unfold follow
      simp only [hjoin]
      exact ih h

/-- An attribute whose chain is joined gets its column, and adds nothing. -/
theorem resolve_of_place? {path : AttributePath} {last : Option Nat} (h : t.place? none path.chain = some last) :
    t.resolve c path = (t, .ok ⟨t.qualifier last, path.column, path.type⟩) := by
  unfold resolve
  rw [follow_of_place? h]

/-! ## Where a name arrives -/

/-- An attribute arrives at a place of the table that resolving it has left, and its column is read there. -/
structure Arrives (c : Catalog) (t u : JoinTable) (path : AttributePath) (column : Column) (place : Option Nat) :
    Prop where
  /-- The place is the one with the relationships of the attribute on its way from the root. -/
  chain : ∀ place', Spells u.joins place' path.chain ↔ place' = place
  root : place = none ↔ path.hops = []
  /-- The column is qualified by the alias of the join there or by the root table, and its entity declares it. -/
  entity : ∃ e, Stands c u place column.qualifier e ∧ e.name = path.entity ∧
    e.columnType? column.name = some column.type
  column : column.name = path.column
  earlier : Continues t u
  /-- A join that was not there before is on the way to the place. -/
  added : ∀ i, t.joins.length ≤ i → i < u.joins.length → OnWay u.joins i place

theorem Spells.eq_none_iff {joins : List Join} {place : Option Nat} {chain : List String}
    (h : Spells joins place chain) : place = none ↔ chain = [] := by
  cases h <;> simp

/-- A resolved name arrives. -/
theorem resolve_arrives (hc : c.Named) (hw : WellFormed c t) (hroot : c.entity? t.root.name = some t.root)
    {name : String} {path : AttributePath} (h : AttributePath.resolve c t.root.name name = .ok path) :
    ∃ u place, t.resolve c path = (u, .ok ⟨u.qualifier place, path.column, path.type⟩) ∧
      u.place? none path.chain = some place ∧
      Arrives c t u path ⟨u.qualifier place, path.column, path.type⟩ place := by
  obtain ⟨e, last, he, hleads, hname, hcolumn⟩ := AttributePath.leads_of_resolve h
  rw [hroot] at he
  cases he
  obtain ⟨u, place, hfollow, hentity⟩ := follow_isOk hc hw (hasPlace_none t) rfl hleads
  have hgrow : Grows c t u := Grows.to (follow_grows hw (hasPlace_none t) path.hops) hfollow
  have hwu := hgrow.wellFormed hw
  have hplace : u.place? none path.chain = some place := follow_eq_ok hw (hasPlace_none t) hfollow
  have hspells := spells_of_place? hwu .root hplace
  rw [List.nil_append] at hspells
  refine ⟨u, place, by simp only [resolve, hfollow], hplace, ?_⟩
  constructor
  case chain =>
    intro place'
    constructor
    · exact fun hspells' => hspells'.inj hwu hspells
    · rintro rfl
      exact hspells
  case root => rw [hspells.eq_none_iff, AttributePath.chain, List.map_eq_nil_iff]
  case entity => exact ⟨last, stands_of_entityAt hspells.hasPlace hentity, hname, hcolumn⟩
  case column => rfl
  case earlier => exact hgrow.continues
  case added => exact fun i hold hi => onWay_of_follow hw (hasPlace_none t) hfollow hold hi

/-- Whatever has been joined, a name is joined just if it stands for an attribute. Then its column is read at the one
place with the relationships of the attribute, what is new in the table lies on the way to that place, and until the
table restarts every name with these relationships leads there again and adds nothing. -/
theorem Reachable.resolveName_arrives {s : Schema} {rootName : String} {root : Entity}
    (hroot : s.catalog.entity? rootName = some root) (h : Reachable s.catalog root t) (name : String) :
    (t.resolveName s.catalog name).2.isOk = AttributePath.isResolvable s.catalog root.name name ∧
    ∀ path, AttributePath.resolve s.catalog root.name name = .ok path →
      ∃ u column place, t.resolveName s.catalog name = (u, .ok column) ∧ Arrives s.catalog t u path column place ∧
        ∀ ops : List Operation, (∀ op ∈ ops, op.restarts = false) →
          ∀ name' path', AttributePath.resolve s.catalog root.name name' = .ok path' → path'.chain = path.chain →
            (u.performAll s.catalog ops).resolveName s.catalog name' =
              (u.performAll s.catalog ops, .ok ⟨column.qualifier, path'.column, path'.type⟩) := by
  have hsame : t.root = root := h.grows.continues.root
  have hown : s.catalog.entity? t.root.name = some t.root := by rw [hsame, s.named_catalog hroot, hroot]
  have harrives (path : AttributePath) (hpath : AttributePath.resolve s.catalog root.name name = .ok path) :=
    resolve_arrives s.named_catalog h.wellFormed hown (hsame.symm ▸ hpath)
  constructor
  · unfold resolveName AttributePath.isResolvable
    rw [hsame]
    cases hpath : AttributePath.resolve s.catalog root.name name with
    | error e => rfl
    | ok path =>
      obtain ⟨u, place, hresolve, -⟩ := harrives path hpath
      simp only [hresolve]
      rfl
  · intro path hpath
    obtain ⟨u, place, hresolve, hplace, harrive⟩ := harrives path hpath
    have hname : t.resolveName s.catalog name = (u, .ok ⟨u.qualifier place, path.column, path.type⟩) := by
      unfold resolveName
      rw [hsame, hpath]
      exact hresolve
    refine ⟨u, _, place, hname, harrive, ?_⟩
    intro ops hops name' path' hpath' hchain
    have hreach : Reachable s.catalog root u := by
      have hperform := h.perform (.resolveName name)
      rwa [JoinTable.perform, hname] at hperform
    -- the place is kept by whatever follows, so the chain is found there
    have hcont := continues_performAll hreach hops
    have hlater := hcont.place? hplace
    rw [← hchain] at hlater
    have hspells := spells_of_place? hreach.wellFormed .root hplace
    have hlaterRoot : (u.performAll s.catalog ops).root = root := hcont.root.trans hreach.grows.continues.root
    unfold resolveName
    rw [hlaterRoot, hpath']
    simp only
    rw [resolve_of_place? hlater, hcont.qualifier hspells.hasPlace]

/-- The join of children. -/
def childJoins : JoinTable := (start people).perform crowded.catalog (.resolveName "children_name")

/-- Notes are joined between the two times that grandchildren are asked for. -/
theorem Reachable.resolveName_arrives_grandchildren : crowded.catalog.entity? "Person" = some people ∧
    Reachable crowded.catalog people childJoins ∧
      ∃ u v column place path,
        AttributePath.resolve crowded.catalog people.name "children_children_name" = .ok path ∧
        childJoins.resolveName crowded.catalog "children_children_name" = (u, .ok column) ∧
        Arrives crowded.catalog childJoins u path column place ∧
        u.performAll crowded.catalog [.resolveName "notes_body"] = v ∧
        v.resolveName crowded.catalog "children_children_name" =
          (v, .ok ⟨column.qualifier, path.column, path.type⟩) := by
  have hroot : crowded.catalog.entity? "Person" = some people := by decide
  have hreach : Reachable crowded.catalog people childJoins := Reachable.start.perform (.resolveName "children_name")
  obtain ⟨-, hall⟩ := hreach.resolveName_arrives hroot "children_children_name"
  refine ⟨hroot, hreach, ?_⟩
  have hok : (AttributePath.resolve crowded.catalog people.name "children_children_name").isOk = true := by
    decide +kernel
  cases hpath : AttributePath.resolve crowded.catalog people.name "children_children_name" with
  | error e =>
    rw [hpath] at hok
    cases hok
  | ok path =>
    obtain ⟨u, column, place, hname, harrives, hagain⟩ := hall path hpath
    have hops : ∀ op ∈ [Operation.resolveName "notes_body"], op.restarts = false := by simp [Operation.restarts]
    exact ⟨u, _, column, place, path, rfl, hname, harrives, rfl, hagain _ hops _ path hpath rfl⟩

end Criteria.JoinTable
