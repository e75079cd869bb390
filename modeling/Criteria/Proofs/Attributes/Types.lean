import Criteria.JoinTable
import Criteria.Proofs.Attributes.Growing

/-!
# The type of an attribute

An attribute has the type that its entity declares, which is found by the name of the entity, and the type of a column
of a table, which is found among all entities by the name of the table.

* `Catalog.without` — the same entities, while some tables and some columns of tables are not there (`hiding_eq`).
* `Schema.TablesDiffer` — no two entities share a table, so each is the one that its table finds (`entityOfTable?_eq`).
* `AttributePath.pathType_without` — then the two types are the same, unless the table or the column is not there.
-/

namespace Criteria

/-- The same entities, without certain tables and certain columns of tables. -/
def Catalog.without (c : Catalog) (hidesTable : String → Bool) (hidesColumn : String → String → Bool) : Catalog where
  entity? := c.entity?
  hasTable table := !hidesTable table && c.hasTable table
  columnType? table column := if hidesColumn table column then none else c.columnType? table column

variable {c : Catalog} {hidesTable : String → Bool} {hidesColumn : String → String → Bool}

/-- Columns are hidden by name, whatever their table. -/
theorem Catalog.hiding_eq (c : Catalog) (tables columns : List String) :
    c.hiding tables columns = c.without tables.contains fun _ column => columns.contains column := rfl

/-- No two entities share a table. -/
def Schema.TablesDiffer (s : Schema) : Prop := s.entities.values.Pairwise fun e e' => e.table ≠ e'.table

instance (s : Schema) : Decidable s.TablesDiffer :=
  inferInstanceAs (Decidable (s.entities.values.Pairwise fun e e' => e.table ≠ e'.table))

theorem find?_table {es : List Entity} {e : Entity} (hes : es.Pairwise fun e e' => e.table ≠ e'.table) (he : e ∈ es) :
    es.find? (fun e' => e'.table == e.table) = some e := by
  induction es with
  | nil => cases he
  | cons first rest ih =>
    rw [List.pairwise_cons] at hes
    rcases List.mem_cons.1 he with rfl | he
    · exact List.find?_cons_of_pos (beq_self_eq_true _)
    · rw [List.find?_cons_of_neg (by simpa using hes.1 e he)]
      exact ih hes.2 he

/-- An entity is the first of its table. -/
theorem Schema.entityOfTable?_eq {s : Schema} (hs : s.TablesDiffer) {name : String} {e : Entity}
    (he : s.entity? name = some e) : s.entityOfTable? e.table = some e :=
  find?_table hs (List.mem_map_of_mem (f := Prod.snd) (Keyed.mem_of_get? he))

/-! ## Types -/

/-- The type of a column by its table, in an entity that no other shares the table with. -/
theorem Catalog.pathType_of_entity {s : Schema} (hs : s.TablesDiffer) {path : AttributePath} {e : Entity}
    (he : s.entity? path.entity = some e) (htype : e.columnType? path.column = some path.type) :
    (s.catalog.without hidesTable hidesColumn).pathType path =
      if hidesTable e.table ∨ hidesColumn e.table path.column then .error (.unknownColumn e.table path.column)
      else .ok path.type := by
  have hentity : (s.catalog.without hidesTable hidesColumn).entity? path.entity = some e := he
  have htable : s.catalog.hasTable e.table = true := by
    show (s.entityOfTable? e.table).isSome = true
    rw [Schema.entityOfTable?_eq hs he]
    rfl
  have hcolumn : s.catalog.columnType? e.table path.column = some path.type := by
    show (s.entityOfTable? e.table).bind (fun e => e.columnType? path.column) = some path.type
    rw [Schema.entityOfTable?_eq hs he]
    exact htype
  unfold pathType
  simp only [hentity]
  by_cases hhidden : hidesTable e.table = true
  · simp [without, hhidden]
  · by_cases hhidden' : hidesColumn e.table path.column = true
    · simp [without, hhidden']
    · simp [without, hhidden, hhidden', htable, hcolumn]

namespace AttributePath

/-- Names are resolved by the entities alone. -/
theorem resolve_without (hc : c.Named) {root name : String} {path : AttributePath} :
    resolve (c.without hidesTable hidesColumn) root name = .ok path ↔ resolve c root name = .ok path := by
  have hc' : (c.without hidesTable hidesColumn).Named := hc
  have hback : (c.without hidesTable hidesColumn).Widens c fun _ _ => False :=
    fun _ e he => ⟨e, he, rfl, fun _ => .inl rfl⟩
  have hforth : c.Widens (c.without hidesTable hidesColumn) fun _ _ => False :=
    fun _ e he => ⟨e, he, rfl, fun _ => .inl rfl⟩
  constructor
  · exact fun h => resolve_widens hc' hc hback h fun _ _ _ hadded => hadded
  · exact fun h => resolve_widens hc hc' hforth h fun _ _ _ hadded => hadded

/-- Where no two entities share a table, an attribute has by its table the type that it was resolved with, unless the
table of its entity or the column of that table is not there: then this table and this column are unknown. -/
theorem pathType_without (s : Schema) (hs : s.TablesDiffer) (hidesTable : String → Bool)
    (hidesColumn : String → String → Bool) {root name : String} {path : AttributePath}
    (hpath : resolve (s.catalog.without hidesTable hidesColumn) root name = .ok path) :
    ∃ e, s.entity? path.entity = some e ∧ e.columnType? path.column = some path.type ∧
      (s.catalog.without hidesTable hidesColumn).pathType path =
        if hidesTable e.table ∨ hidesColumn e.table path.column then .error (.unknownColumn e.table path.column)
        else .ok path.type := by
  rw [resolve_without s.named_catalog, resolve_eq_ok_iff s.named_catalog] at hpath
  obtain ⟨-, -, -, e, he, htype⟩ := hpath
  exact ⟨e, he, htype, Catalog.pathType_of_entity hs he htype⟩

/-- The address of a member of an organisation. -/
def memberEmail : AttributePath :=
  ⟨"team_members_email", "Org", [⟨"team_members", "Org", "Member"⟩], "Member", "email", .string⟩

/-- A column that is hidden in another table does not matter; one that is hidden in the table of the entity does, and so
does the table. -/
theorem pathType_without_teams : teams.TablesDiffer ∧
    resolve teams.catalog "Org" "team_members_email" = .ok memberEmail ∧
    (teams.catalog.without (· == "teams") fun table _ => table == "orgs").pathType memberEmail = .ok .string ∧
    (teams.catalog.without (fun _ => false) fun table column => table == "members" && column == "email").pathType
      memberEmail = .error (.unknownColumn "members" "email") ∧
    (teams.catalog.hiding ["members"] ["name"]).pathType memberEmail = .error (.unknownColumn "members" "email") := by
  have hs : teams.TablesDiffer := by decide
  have hpath : resolve teams.catalog "Org" "team_members_email" = .ok memberEmail :=
    eq_ok_of_toOption (by decide +kernel)
  have htype (hidesTable : String → Bool) (hidesColumn : String → String → Bool) :
      (teams.catalog.without hidesTable hidesColumn).pathType memberEmail =
        if hidesTable "members" ∨ hidesColumn "members" "email" then .error (.unknownColumn "members" "email")
        else .ok .string := by
    obtain ⟨e, he, -, htype⟩ :=
      pathType_without teams hs hidesTable hidesColumn ((resolve_without teams.named_catalog).2 hpath)
    obtain rfl := Option.some.inj he
    exact htype
  refine ⟨hs, hpath, htype _ _, htype _ _, ?_⟩
  rw [Catalog.hiding_eq, htype]
  rfl

end AttributePath

end Criteria
