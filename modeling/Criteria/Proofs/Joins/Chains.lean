import Criteria.Proofs.Joins.Growth

/-!
# Chains of relationships

* `Spells` — the relationships from the root to a join, read along parents; `Spells.inj`: they tell the joins apart.
* `place?`, `columnOf` — the join that a chain leads to, and the column of an attribute there; `resolve_eq_ok` says that
  this is what resolving gives, and `Continues.columnOf` that further joins leave it alone.
* `Catalog.Leads` — hops along declared relationships; a resolved name has such hops (`leads_of_resolve`), and they are
  always joined again (`resolve_isOk`).
-/

namespace Criteria

/-- The relationships of the hops of an attribute. -/
def AttributePath.chain (path : AttributePath) : List String := path.hops.map Hop.relationship

namespace JoinTable

variable {c : Catalog} {t u v : JoinTable}

/-! ## The chain of a join -/

/-- The relationships from the root to a place, along the parents of its join. -/
inductive Spells (joins : List Join) : Option Nat → List String → Prop
  | root : Spells joins none []
  | join {index : Nat} {j : Join} {chain : List String} (hj : joins[index]? = some j)
      (h : Spells joins j.parent chain) : Spells joins (some index) (chain ++ [j.relationship])

/-- No two joins have the same chain. -/
theorem Spells.inj (hw : WellFormed c t) {place place' : Option Nat} {chain : List String}
    (h : Spells t.joins place chain) (h' : Spells t.joins place' chain) : place = place' := by
  induction h generalizing place' with
  | root =>
    generalize hchain : ([] : List String) = chain at h'
    cases h' with
    | root => rfl
    | join => simp at hchain
  | @join index j chain hj h ih =>
    generalize hchain : chain ++ [j.relationship] = chain' at h'
    cases h' with
    | root => simp at hchain
    | @join index' j' chain' hj' h' =>
      obtain ⟨hinit, hlast⟩ := List.append_inj' hchain rfl
      subst hinit
      rw [hw.unique hj hj' (by simpa using hlast) (ih h')]

/-- The place that a chain leads to from another. -/
def place? (t : JoinTable) (place : Option Nat) : List String → Option (Option Nat)
  | [] => some place
  | relationship :: rest =>
    match t.memo.get? (relationship, place) with
    | some index => place? t (some index) rest
    | none => none

theorem place?_cons {relationship : String} {place : Option Nat} {index : Nat}
    (hi : t.memo.get? (relationship, place) = some index) (rest : List String) :
    t.place? place (relationship :: rest) = t.place? (some index) rest := by
  rw [place?, hi]

theorem Continues.place? (h : Continues t u) {place last : Option Nat} {chain : List String}
    (hp : t.place? place chain = some last) : u.place? place chain = some last := by
  induction chain generalizing place with
  | nil => exact hp
  | cons relationship rest ih =>
    unfold JoinTable.place? at hp ⊢
    cases hi : t.memo.get? (relationship, place) with
    | none => simp [hi] at hp
    | some index =>
      simp only [hi] at hp
      simp only [h.get?_memo hi]
      exact ih hp

theorem spells_of_place? (hw : WellFormed c t) {place last : Option Nat} {pre chain : List String}
    (hpre : Spells t.joins place pre) (hp : t.place? place chain = some last) : Spells t.joins last (pre ++ chain) := by
  induction chain generalizing place pre with
  | nil =>
    cases hp
    rwa [List.append_nil]
  | cons relationship rest ih =>
    unfold JoinTable.place? at hp
    cases hi : t.memo.get? (relationship, place) with
    | none => simp [hi] at hp
    | some index =>
      simp only [hi] at hp
      obtain ⟨j, hj, hrel, hpar⟩ := hw.get?_memo.1 hi
      have hstep : Spells t.joins (some index) (pre ++ [j.relationship]) := .join hj (hpar ▸ hpre)
      rw [hrel] at hstep
      simpa using ih hstep hp

theorem Spells.hasPlace {place : Option Nat} {chain : List String} (h : Spells t.joins place chain) :
    t.HasPlace place := by
  cases h with
  | root => exact hasPlace_none t
  | join hj _ => exact hasPlace_some hj

/-! ## The column of an attribute -/

/-- The column of an attribute whose chain is joined. -/
def columnOf (t : JoinTable) (path : AttributePath) : Column :=
  ⟨t.qualifier ((t.place? none path.chain).getD none), path.column, path.type⟩

/-- The chain of an attribute is joined. -/
def IsJoined (t : JoinTable) (path : AttributePath) : Prop := (t.place? none path.chain).isSome

theorem Continues.isJoined (h : Continues t u) {path : AttributePath} (hp : t.IsJoined path) : u.IsJoined path := by
  obtain ⟨last, hlast⟩ := Option.isSome_iff_exists.1 hp
  exact Option.isSome_iff_exists.2 ⟨last, h.place? hlast⟩

theorem Continues.columnOf (h : Continues t u) (hw : WellFormed c t) {path : AttributePath} (hp : t.IsJoined path) :
    u.columnOf path = t.columnOf path := by
  obtain ⟨last, hlast⟩ := Option.isSome_iff_exists.1 hp
  have hplace := (spells_of_place? hw .root hlast).hasPlace
  unfold JoinTable.columnOf
  rw [h.place? hlast, hlast, Option.getD_some, h.qualifier hplace]

/-- What has been joined is remembered. -/
theorem get?_memo_of_join (hw : WellFormed c t) {relationship : String} {parent : Option Nat} {index : Nat}
    (hp : t.HasPlace parent) (h : t.join c relationship parent = .ok (u, index)) :
    u.memo.get? (relationship, parent) = some index := by
  obtain ⟨hgrow, hj⟩ := join_grows hw hp h
  exact (hgrow.wellFormed hw).get?_memo.2 hj

/-- Following hops leads to the place of their chain. -/
theorem follow_eq_ok (hw : WellFormed c t) {parent last : Option Nat} (hp : t.HasPlace parent) {hops : List Hop}
    (h : t.follow c parent hops = (u, .ok last)) : u.place? parent (hops.map Hop.relationship) = some last := by
  induction hops generalizing t parent with
  | nil =>
    cases h
    rfl
  | cons hop hops ih =>
    unfold follow at h
    split at h
    · cases h
    · rename_i t' index hjoin
      have hmemo := get?_memo_of_join hw hp hjoin
      obtain ⟨hgrow, j, hj, -⟩ := join_grows hw hp hjoin
      have hw' := hgrow.wellFormed hw
      have hplace := hasPlace_some hj
      -- the join of the first hop is still remembered after those that the other hops add
      have hcont : Continues t' u := Grows.continues (Grows.to (follow_grows hw' hplace hops) h)
      rw [List.map_cons, place?_cons (hcont.get?_memo hmemo)]
      exact ih hw' hplace h

/-- Resolving an attribute joins its chain and gives its column. -/
theorem resolve_eq_ok (hw : WellFormed c t) {path : AttributePath} {column : Column}
    (h : t.resolve c path = (u, .ok column)) : u.IsJoined path ∧ column = u.columnOf path := by
  unfold resolve at h
  split at h
  · cases h
  · rename_i last hfollow
    cases h
    have hplace := follow_eq_ok hw (hasPlace_none t) hfollow
    unfold IsJoined columnOf AttributePath.chain
    rw [hplace]
    exact ⟨rfl, rfl⟩

end JoinTable

/-! ## Hops along declared relationships -/

/-- Every entity is found under its own name. -/
def Catalog.Named (c : Catalog) : Prop := ∀ {name : String} {e : Entity}, c.entity? name = some e → e.name = name

theorem Schema.named_catalog (s : Schema) : s.catalog.Named := fun h => Schema.name_eq_of_entity? h

/-- Hops that follow declared relationships from one entity to another. -/
inductive Catalog.Leads (c : Catalog) : Entity → List Hop → Entity → Prop
  | nil (e : Entity) : Leads c e [] e
  | cons {e next last : Entity} {hop : Hop} {hops : List Hop} {r : Relationship}
      (hr : e.relationship? hop.relationship = some r) (hnext : c.entity? r.target = some next)
      (h : Leads c next hops last) : Leads c e (hop :: hops) last

namespace AttributePath

variable {c : Catalog}

theorem step?_eq_some {e : Entity} {name : List Char} {s : Step} (h : step? e name = some s) :
    ∃ r, e.relationship? s.relationship = some r ∧ r.target = s.target := by
  obtain ⟨cut, -, hcut⟩ := List.exists_of_findSome?_eq_some h
  obtain ⟨r, hr, rfl⟩ := Option.map_eq_some_iff.1 hcut
  exact ⟨r, hr, rfl⟩

theorem leads_of_descend {start entity column : String} {name : List Char} {hops : List Hop} {type : ColumnType}
    (h : descend c start name = .column hops entity column type) : ∃ e last, c.entity? start = some e ∧
      c.Leads e hops last ∧ last.name = entity ∧ last.columnType? column = some type := by
  fun_induction descend c start name generalizing hops with
  | case1 => cases h
  | case2 start name e he type' htype =>
    cases h
    exact ⟨e, e, he, .nil e, rfl, htype⟩
  | case3 start name e he hcolumn s hs hlt ih =>
    -- a hop stands in front of the descent from the target
    cases hd : descend c s.target s.rest with
    | stuck => simp [hd, Descent.after] at h
    | missing => simp [hd, Descent.after] at h
    | column hops' entity' column' type' =>
      simp only [hd, Descent.after, Descent.column.injEq] at h
      obtain ⟨rfl, rfl, rfl, rfl⟩ := h
      obtain ⟨next, last, hnext, hleads, hlast⟩ := ih hd
      obtain ⟨r, hr, htarget⟩ := step?_eq_some hs
      exact ⟨e, last, he, .cons hr (htarget ▸ hnext) hleads, hlast⟩
  | case4 => cases h

theorem leads_of_resolve {root name : String} {path : AttributePath} (h : resolve c root name = .ok path) :
    ∃ e last, c.entity? root = some e ∧ c.Leads e path.hops last ∧ last.name = path.entity ∧
      last.columnType? path.column = some path.type := by
  unfold resolve at h
  split at h
  · rename_i hd
    cases h
    exact leads_of_descend hd
  · cases h
  · cases h

theorem name_of_resolve {root name : String} {path : AttributePath} (h : resolve c root name = .ok path) :
    path.name = name := by
  unfold resolve at h
  split at h <;> cases h
  rfl

end AttributePath

namespace JoinTable

variable {c : Catalog} {t : JoinTable}

theorem entityAt_some {index : Nat} {j : Join} {e : Entity} (hj : t.joins[index]? = some j)
    (he : c.entity? j.entity = some e) : t.entityAt c (some index) = .ok e := by
  simp only [entityAt, hj, Option.map_some, Option.getD_some, he]

/-- A declared relationship is joined, and the join has its target. -/
theorem join_isOk (hc : c.Named) (hw : WellFormed c t) {relationship : String} {parent : Option Nat} {e next : Entity}
    {r : Relationship} (he : t.entityAt c parent = .ok e) (hr : e.relationship? relationship = some r)
    (hnext : c.entity? r.target = some next) :
    ∃ u index, t.join c relationship parent = .ok (u, index) ∧ u.entityAt c (some index) = .ok next := by
  have hname : c.entity? next.name = some next := by rw [hc hnext, hnext]
  unfold join
  cases hmemo : t.memo.get? (relationship, parent) with
  | some index =>
    obtain ⟨j, hj, rfl, rfl⟩ := hw.get?_memo.1 hmemo
    obtain ⟨source, r', target, hsource, htarget, hfollows⟩ := hw.declared hj
    rw [he] at hsource
    cases hsource
    have hrel := hfollows.relationship
    rw [hr] at hrel
    cases hrel
    rw [hnext] at htarget
    cases htarget
    exact ⟨t, index, rfl, entityAt_some hj (by rw [hfollows.entity, hname])⟩
  | none =>
    simp only [he, hr, hnext]
    refine ⟨_, _, rfl, entityAt_some (j := t.newJoin relationship parent e next r) ?_ hname⟩
    rw [joins_extend, List.getElem?_append_right (Nat.le_refl _), Nat.sub_self]
    rfl

theorem follow_isOk (hc : c.Named) (hw : WellFormed c t) {parent : Option Nat} (hp : t.HasPlace parent)
    {e last : Entity} {hops : List Hop} (he : t.entityAt c parent = .ok e) (h : c.Leads e hops last) :
    ∃ u place, t.follow c parent hops = (u, .ok place) ∧ u.entityAt c place = .ok last := by
  induction h generalizing t parent with
  | nil => exact ⟨t, parent, rfl, he⟩
  | cons hr hnext _ ih =>
    obtain ⟨u, index, hjoin, hentity⟩ := join_isOk hc hw he hr hnext
    obtain ⟨hgrow, j, hj, -⟩ := join_grows hw hp hjoin
    unfold follow
    simp only [hjoin]
    exact ih (hgrow.wellFormed hw) (hasPlace_some hj) hentity

/-- A resolved name is always joined again. -/
theorem resolve_isOk (hc : c.Named) (hw : WellFormed c t) {name : String} {path : AttributePath}
    (hroot : c.entity? t.root.name = some t.root) (h : AttributePath.resolve c t.root.name name = .ok path) :
    ∃ u column, t.resolve c path = (u, .ok column) := by
  obtain ⟨e, last, he, hleads, -⟩ := AttributePath.leads_of_resolve h
  rw [hroot] at he
  cases he
  obtain ⟨u, place, hfollow, -⟩ := follow_isOk hc hw (hasPlace_none t) rfl hleads
  exact ⟨u, ⟨u.qualifier place, path.column, path.type⟩, by simp only [resolve, hfollow]⟩

end JoinTable

end Criteria
