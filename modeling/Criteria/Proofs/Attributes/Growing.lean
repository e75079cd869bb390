import Criteria.Proofs.Attributes.Greedy

/-!
# Names in a growing schema

What a name stands for, after a column or an entity has been added to the schema.

* `Catalog.Widens` — entities stay with their relationships and their columns, and only certain columns are new: so it
  is when a column is declared (`widens_column`), and when an entity is registered under a free name (`widens_entity`).
* `AttributePath.CapturedAt` — on its way to a column, a name is a certain column of an entity that it passes.
* `Unshadowed.widens`, `Chained.widens` — a hop is shadowed by no more than the new columns, so a name is led the same
  way (`Descends.widens`) unless one of them captures it, and then it ends there (`Descends.take`).
* `resolve_register` — a name that resolves always does so afterwards, and to the same column unless it is captured.
-/

namespace Criteria

/-! ## What is found in a larger schema -/

theorem Entity.columnType?_column (e : Entity) (column : String) (type : ColumnType) (name : String) :
    (e.column column type).columnType? name = if column = name then some type else e.columnType? name :=
  Keyed.get?_put column name type e.columns

theorem Schema.entity?_register (s : Schema) (e : Entity) (name : String) :
    (s.register e).catalog.entity? name = if e.name = name then some e else s.catalog.entity? name :=
  Keyed.get?_put e.name name e s.entities

/-- Every entity stays, with its relationships and its columns, and only columns of these entities and names are new. -/
def Catalog.Widens (c c' : Catalog) (added : String → String → Prop) : Prop :=
  ∀ (name : String) (e : Entity), c.entity? name = some e → ∃ e', c'.entity? name = some e' ∧
    e'.relationships = e.relationships ∧
    ∀ column, e'.columnType? column = e.columnType? column ∨ (added name column ∧ e.columnType? column = none)

theorem Schema.widens_column {s : Schema} {e : Entity} {column : String} (type : ColumnType)
    (he : s.entity? e.name = some e) (hnew : e.columnType? column = none) :
    s.catalog.Widens (s.register (e.column column type)).catalog fun name other => name = e.name ∧ other = column := by
  intro name found hfound
  rw [s.entity?_register]
  by_cases hname : e.name = name
  · subst hname
    obtain rfl : e = found := Option.some.inj (he.symm.trans hfound)
    refine ⟨e.column column type, if_pos rfl, rfl, fun other => ?_⟩
    rw [e.columnType?_column]
    by_cases hother : column = other
    · subst hother
      exact .inr ⟨⟨rfl, rfl⟩, hnew⟩
    · exact .inl (if_neg hother)
  · exact ⟨found, (if_neg hname).trans hfound, rfl, fun _ => .inl rfl⟩

theorem Schema.widens_entity {s : Schema} {e : Entity} (hfree : s.entity? e.name = none) :
    s.catalog.Widens (s.register e).catalog fun _ _ => False := by
  intro name found hfound
  have hname : e.name ≠ name := by
    rintro rfl
    exact nomatch hfree.symm.trans hfound
  exact ⟨found, (s.entity?_register e name).trans ((if_neg hname).trans hfound), rfl, fun _ => .inl rfl⟩

namespace Catalog.Widens

variable {c c' : Catalog} {added : String → String → Prop} {e e' : Entity}

theorem declares (h : c.Widens c' added) {hop : Hop} (hdeclares : c.Declares hop) : c'.Declares hop := by
  obtain ⟨e, r, he, hr, htarget⟩ := hdeclares
  obtain ⟨e', he', hsame, -⟩ := h _ _ he
  exact ⟨e', r, he', (congrArg (Keyed.get? hop.relationship) hsame).trans hr, htarget⟩

theorem hasColumn (h : c.Widens c' added) {entity column : String} {type : ColumnType}
    (hcolumn : c.HasColumn entity column type) : c'.HasColumn entity column type := by
  obtain ⟨e, he, htype⟩ := hcolumn
  obtain ⟨e', he', -, hcolumns⟩ := h _ _ he
  refine ⟨e', he', ?_⟩
  rcases hcolumns column with hsame | ⟨-, hnone⟩
  · rw [hsame, htype]
  · exact nomatch htype.symm.trans hnone

end Catalog.Widens

namespace AttributePath

variable {c c' : Catalog} {added : String → String → Prop} {entity last left : String} {hops : List Hop}

/-! ## Spelled names -/

theorem length_lt_spelled (hne : hops ≠ []) (column : String) : column.length < (spelled hops column).length := by
  induction hops with
  | nil => exact absurd rfl hne
  | cons hop hops ih =>
    have hle : column.length ≤ (spelled hops column).length := by
      cases hops with
      | nil => exact Nat.le_refl _
      | cons next rest => exact Nat.le_of_lt (ih (List.cons_ne_nil next rest))
    have hone : "_".length = 1 := rfl
    rw [spelled_cons, String.length_append, String.length_append, hone]
    omega

/-! ## Descents in a larger schema -/

/-- A hop is shadowed by new columns only. -/
theorem Unshadowed.widens (h : c.Widens c' added) {name : String} {hop : Hop} (hdeclares : c.Declares hop)
    (hfree : Unshadowed c name hop) (hnew : ¬ added hop.source name) : Unshadowed c' name hop := by
  obtain ⟨e, -, he, -⟩ := hdeclares
  obtain ⟨hcolumn, hlongest⟩ := hfree e he
  obtain ⟨e', he', hsame, hcolumns⟩ := h _ _ he
  intro found hfound
  obtain rfl : e' = found := Option.some.inj (he'.symm.trans hfound)
  refine ⟨?_, fun other rest hstarts => hlongest other rest ?_⟩
  · rcases hcolumns name with hsame | ⟨hadded, -⟩
    · rw [hsame, hcolumn]
    · exact absurd hadded hnew
  · rwa [Entity.Starts, Entity.relationship?, ← hsame]

/-- A name is led the same way unless it becomes a new column where a hop is taken. -/
theorem Descends.widens (h : c.Widens c' added) {name : String} (hdescends : Descends c entity name hops last left)
    (hnew : ∀ i hop, hops[i]? = some hop → ¬ added hop.source (spelled (hops.drop i) left)) :
    Descends c' entity name hops last left := by
  induction hdescends with
  | here => exact .here _ _
  | @hop hop hops name rest last left hgreedy hrest ih =>
    have hname : name = spelled (hop :: hops) left := (Descends.hop hgreedy hrest).eq_spelled
    have hfree : Unshadowed c' name hop := by
      refine hgreedy.unshadowed.widens h hgreedy.declares ?_
      rw [hname]
      exact hnew 0 hop rfl
    exact .hop ⟨h.declares hgreedy.declares, hgreedy.spells, hfree⟩ (ih fun i hop' hi => hnew (i + 1) hop' hi)

/-- The hops before another one lead to its source. -/
theorem Descends.take {name : String} (h : Descends c entity name hops last left) {i : Nat} {hop : Hop}
    (hi : hops[i]? = some hop) : Descends c entity name (hops.take i) hop.source (spelled (hops.drop i) left) := by
  induction h generalizing i with
  | here => simp at hi
  | @hop first hops name rest last left hgreedy hrest ih =>
    cases i with
    | zero =>
      cases hi
      rw [(Descends.hop hgreedy hrest).eq_spelled]
      exact .here _ _
    | succ i => exact .hop hgreedy (ih hi)

/-! ## Captured names -/

/-- What is left of a name before the hop at a place is a column of the entity where it is taken. -/
def CapturedAt (path : AttributePath) (entity column : String) (i : Nat) : Prop :=
  ∃ hop, path.hops[i]? = some hop ∧ hop.source = entity ∧ spelled (path.hops.drop i) path.column = column

variable {path : AttributePath} {root name column : String} {type : ColumnType}

/-- A name that is not captured resolves to the column to which it did. -/
theorem resolve_widens (hc : c.Named) (hc' : c'.Named) (h : c.Widens c' added)
    (hpath : resolve c root name = .ok path)
    (hnew : ∀ i hop, path.hops[i]? = some hop → ¬ added hop.source (spelled (path.hops.drop i) path.column)) :
    resolve c' root name = .ok path := by
  obtain ⟨hname, hroot, hdescends, hcolumn⟩ := (resolve_eq_ok_iff hc).1 hpath
  exact (resolve_eq_ok_iff hc').2 ⟨hname, hroot, hdescends.widens h hnew, h.hasColumn hcolumn⟩

/-- A name that is captured ends at the new column. -/
theorem resolve_of_capturedAt (hc : c.Named) (hc' : c'.Named)
    (h : c.Widens c' fun name other => name = entity ∧ other = column) (hcolumn : c'.HasColumn entity column type)
    (hpath : resolve c root name = .ok path) {i : Nat} (hi : path.CapturedAt entity column i) :
    resolve c' root name = .ok ⟨name, root, path.hops.take i, entity, column, type⟩ := by
  obtain ⟨-, -, hdescends, -⟩ := (resolve_eq_ok_iff hc).1 hpath
  obtain ⟨hop, hhop, rfl, rfl⟩ := hi
  refine (resolve_eq_ok_iff hc').2 ⟨rfl, rfl, (hdescends.take hhop).widens h ?_, hcolumn⟩
  -- before that, more of the name is left than the column
  rintro j earlier hj ⟨-, hleft⟩
  have hlt : j < (path.hops.take i).length := (List.getElem?_eq_some_iff.1 hj).1
  have hne : (path.hops.take i).drop j ≠ [] := by
    rw [Ne, List.drop_eq_nil_iff]
    omega
  have hlonger := length_lt_spelled hne (spelled (path.hops.drop i) path.column)
  rw [hleft] at hlonger
  exact Nat.lt_irrefl _ hlonger

/-- A name that resolves does so in every larger schema. A new column of an entity leaves it the same path just if it
does not capture the name on the way, and otherwise ends the path there; a new entity leaves it the same path always. -/
theorem resolve_register (s : Schema) {root name : String} {path : AttributePath}
    (hpath : resolve s.catalog root name = .ok path) :
    (∀ (e : Entity) (column : String) (type : ColumnType), s.entity? e.name = some e → e.columnType? column = none →
      (∃ path', resolve (s.register (e.column column type)).catalog root name = .ok path') ∧
        (resolve (s.register (e.column column type)).catalog root name = .ok path ↔
          ∀ i, ¬ path.CapturedAt e.name column i) ∧
        ∀ i, path.CapturedAt e.name column i → resolve (s.register (e.column column type)).catalog root name =
          .ok ⟨name, root, path.hops.take i, e.name, column, type⟩) ∧
      ∀ e : Entity, s.entity? e.name = none → resolve (s.register e).catalog root name = .ok path := by
  refine ⟨fun e column type he hnew => ?_, fun e hfree => ?_⟩
  · have hc' : (s.register (e.column column type)).catalog.Named := (s.register (e.column column type)).named_catalog
    have hwidens := Schema.widens_column type he hnew
    have hcolumn : (s.register (e.column column type)).catalog.HasColumn e.name column type :=
      ⟨e.column column type, (s.entity?_register _ _).trans (if_pos rfl),
        (e.columnType?_column column type column).trans (if_pos rfl)⟩
    have hcaptured (i : Nat) (hi : path.CapturedAt e.name column i) :=
      resolve_of_capturedAt s.named_catalog hc' hwidens hcolumn hpath hi
    have hsame (hnone : ∀ i, ¬ path.CapturedAt e.name column i) :=
      resolve_widens s.named_catalog hc' hwidens hpath fun i hop hi hadded => hnone i ⟨hop, hi, hadded⟩
    refine ⟨?_, ⟨fun h i hi => ?_, hsame⟩, hcaptured⟩
    · by_cases hsome : ∃ i, path.CapturedAt e.name column i
      · obtain ⟨i, hi⟩ := hsome
        exact ⟨_, hcaptured i hi⟩
      · exact ⟨path, hsame (not_exists.1 hsome)⟩
    · -- the path would be as long as a part of it
      have hhops : path.hops = path.hops.take i :=
        congrArg AttributePath.hops (Except.ok.inj (h.symm.trans (hcaptured i hi)))
      obtain ⟨hop, hhop, -⟩ := hi
      have hlt := (List.getElem?_eq_some_iff.1 hhop).1
      have hlength := congrArg List.length hhops
      rw [List.length_take] at hlength
      omega
  · exact resolve_widens s.named_catalog (s.register e).named_catalog (Schema.widens_entity hfree) hpath
      fun _ _ _ hadded => hadded

/-! ## A name that is captured on a cycle -/

/-- A tree of named nodes. -/
def node : Entity := ((Entity.new "Node" "nodes").column "name" .string).hasMany "children" "Node" "node_id"

def tree : Schema := Schema.empty.register node

/-- The name of a node two levels down. -/
def grandchildName : AttributePath :=
  ⟨"children_children_name", "Node", [⟨"children", "Node", "Node"⟩, ⟨"children", "Node", "Node"⟩], "Node",
    "name", .string⟩

theorem resolve_grandchildName : resolve tree.catalog "Node" "children_children_name" = .ok grandchildName :=
  eq_ok_of_toOption (by decide +kernel)

/-- A column that is named like a way from a node captures the name at the second visit to the entity, and not at the
first; a column of another name and another entity do not change the path. -/
theorem resolve_register_tree :
    resolve tree.catalog "Node" "children_children_name" = .ok grandchildName ∧
      resolve (tree.register (node.column "children_name" .text)).catalog "Node" "children_children_name" =
        .ok ⟨"children_children_name", "Node", [⟨"children", "Node", "Node"⟩], "Node", "children_name", .text⟩ ∧
      resolve (tree.register (node.column "children" .text)).catalog "Node" "children_children_name" =
        .ok grandchildName ∧
      resolve (tree.register (Entity.new "children" "nodes")).catalog "Node" "children_children_name" =
        .ok grandchildName := by
  obtain ⟨hcolumns, hentities⟩ := resolve_register tree resolve_grandchildName
  refine ⟨resolve_grandchildName, ?_, ?_, hentities _ rfl⟩
  · exact (hcolumns node "children_name" .text rfl rfl).2.2 1 ⟨_, rfl, rfl, rfl⟩
  · refine (hcolumns node "children" .text rfl rfl).2.1.2 ?_
    rintro i ⟨hop, hhop, -, hleft⟩
    match i, hhop with
    | 0, _ => exact absurd hleft (by decide)
    | 1, _ => exact absurd hleft (by decide)

end AttributePath

end Criteria
