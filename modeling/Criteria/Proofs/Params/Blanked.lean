import Criteria.Proofs.Params.Failures
import Criteria.Proofs.Params.Filled

/-!
# Blank values in the place of unknown names

* `Json.onMappings` — a group or record value with its mappings changed: it holds the changed ones
  (`mappings_onMappings`).
* `Reader.strict` — the reader that leaves nothing out.
* `Reader.blankParams` — parameters with a blank value for every key and every record, at any depth, whose condition
  fails on a name.
* `Reader.junction_blankEntries` — what a strict reader reads there is what a lenient one reads in the first place.
* `Search.ignoring_is_blanking` — so the two build the same search; and a lenient search never fails on a name.
-/

namespace Criteria

/-! ## Changing mappings -/

namespace Json

/-- An item with its mapping changed. -/
def onItem (f : Keyed Json → Keyed Json) : Json → Json
  | .object fields => .object (f fields)
  | value => value

/-- A value of the same shape with its mappings changed. -/
def onMappings (f : Keyed Json → Keyed Json) : Json → Json
  | .array items => .array (items.map (onItem f))
  | .object fields =>
    match indexed? fields with
    | some _ => .object (fields.map (Prod.map id (onItem f)))
    | none => .object (f fields)
  | value => value

variable {f : Keyed Json → Keyed Json}

theorem asMapping_onItem (f : Keyed Json → Keyed Json) (item : Json) :
    asMapping (item.onItem f) = (asMapping item).map f := by
  cases item <;> rfl

theorem collect_asMapping_map (f : Keyed Json → Keyed Json) (items : List Json) :
    collect asMapping (items.map (onItem f)) = (collect asMapping items).map (List.map f) := by
  simp only [collect_map, asMapping_onItem, collect_map_ok]

theorem mappings_onMappings (h : ∀ fields, indexed? fields = none → indexed? (f fields) = none) (value : Json) :
    mappings (value.onMappings f) = (mappings value).map (List.map f) := by
  cases value with
  | null | bool b | number n => rfl
  | string s =>
    simp only [onMappings, mappings]
    split <;> rfl
  | array items => exact collect_asMapping_map f items
  | object fields =>
    cases hitems : indexed? fields with
    | some items => simp [onMappings, mappings, hitems, indexed?_map, collect_asMapping_map]
    | none => simp [onMappings, mappings, hitems, h fields hitems, Except.map]

end Json

/-! ## Strict readers -/

/-- The settings with nothing left out. -/
def Settings.strict (s : Settings) : Settings := { s with ignoreUnknown := false }

/-- The search with the settings that leave nothing out. -/
def Search.strict (q : Search) : Search := { q with settings := q.settings.strict }

namespace Reader

variable {r : Reader} {key : String} {value : Json} {fields : Keyed Json}

/-- The reader that leaves nothing out. -/
def strict (r : Reader) : Reader := { r with settings := r.settings.strict }

theorem recordCondition_strict (fields : Keyed Json) : r.strict.recordCondition fields = r.record fields :=
  tolerate_of_strict rfl _

theorem recordCondition_of_lenient (hr : r.settings.ignoreUnknown = true) (fields : Keyed Json) :
    r.recordCondition fields =
      if failsOnName (r.strict.recordCondition fields) then .ok none else r.strict.recordCondition fields := by
  rw [recordCondition_strict, recordCondition, tolerate_of_lenient hr]

theorem namedCondition_of_lenient (hr : r.settings.ignoreUnknown = true) (key : String) (value : Json) :
    r.namedCondition key value =
      if failsOnName (r.strict.namedCondition key value) then .ok none else r.strict.namedCondition key value := by
  unfold namedCondition
  cases hvalue : Value.ofJson value with
  | error e => simp [failsOnName_error, notDroppable_of_ofJson hvalue]
  | ok read =>
    cases read with
    | none => rfl
    | some read =>
      simp only [tolerate_of_lenient hr, tolerate_of_strict (r := r.strict) rfl]
      rfl

/-! ## Blanking -/

/-- The value of a key, blank if its condition fails on a name. -/
def blankNamed (r : Reader) (key : String) (value : Json) : Json :=
  if failsOnName (r.strict.namedCondition key value) then .null else value

/-- A record, with a blank value if its condition fails on a name. -/
def blankRecord (r : Reader) (fields : Keyed Json) : Keyed Json :=
  if failsOnName (r.strict.recordCondition fields) then fields.put "v" .null else fields

mutual

/-- The value of groups, with all conditions in them blank that fail on a name, at any depth. -/
def blankGroups (r : Reader) : Json → Json
  | .array items => .array (r.blankItems items)
  | .object fields =>
    match indexed? fields with
    | some _ => .object (r.blankPositions fields)
    | none => .object (r.blankEntries fields)
  | value => value

def blankItem (r : Reader) : Json → Json
  | .object fields => .object (r.blankEntries fields)
  | value => value

def blankItems (r : Reader) : List Json → List Json
  | [] => []
  | item :: rest => r.blankItem item :: r.blankItems rest

def blankPositions (r : Reader) : List (String × Json) → List (String × Json)
  | [] => []
  | (key, value) :: rest => (key, r.blankItem value) :: r.blankPositions rest

/-- The value of an entry. -/
def blankValue (r : Reader) : String × Json → Json
  | (key, value) =>
    match r.settings.role key with
    | .orGroups | .andGroups => r.blankGroups value
    | .records => value.onMappings r.blankRecord
    | .condition => r.blankNamed key value
    | .sorts => value

def blankEntries (r : Reader) : List (String × Json) → Keyed Json
  | [] => []
  | field :: rest => (field.1, r.blankValue field) :: r.blankEntries rest

end

/-- The parameters of a search with all conditions blank that fail on a name; its sorts have none. -/
def blankParams (r : Reader) (params : Keyed Json) : Keyed Json :=
  params.map fun field => (field.1, if field.1 = r.settings.sortKey then field.2 else r.blankValue field)

theorem blankItem_eq (r : Reader) (value : Json) : r.blankItem value = value.onItem r.blankEntries := by
  cases value <;> simp [blankItem, Json.onItem]

theorem blankItems_eq (r : Reader) (items : List Json) :
    r.blankItems items = items.map (Json.onItem r.blankEntries) := by
  induction items with
  | nil => rfl
  | cons item rest ih => rw [blankItems, blankItem_eq, ih, List.map_cons]

theorem blankPositions_eq (r : Reader) (fields : Keyed Json) :
    r.blankPositions fields = fields.map (Prod.map id (Json.onItem r.blankEntries)) := by
  induction fields with
  | nil => rfl
  | cons field rest ih =>
    obtain ⟨key, value⟩ := field
    rw [blankPositions, blankItem_eq, ih]
    rfl

theorem blankGroups_eq (r : Reader) (value : Json) : r.blankGroups value = value.onMappings r.blankEntries := by
  cases value <;> simp [blankGroups, Json.onMappings, blankItems_eq, blankPositions_eq]

theorem blankEntries_eq (r : Reader) (fields : Keyed Json) :
    r.blankEntries fields = fields.map fun field => (field.1, r.blankValue field) := by
  induction fields with
  | nil => rfl
  | cons field rest ih => rw [blankEntries, ih, List.map_cons]

theorem names_blankEntries (r : Reader) (fields : Keyed Json) : (r.blankEntries fields).names = fields.names := by
  rw [blankEntries_eq, Keyed.names, List.map_map]
  rfl

theorem indexed?_blankEntries (r : Reader) (fields : Keyed Json) (h : indexed? fields = none) :
    indexed? (r.blankEntries fields) = none := by
  rw [indexed?_eq_none] at h ⊢
  rw [names_blankEntries]
  rcases h with rfl | h
  · exact .inl rfl
  · exact .inr h

theorem indexed?_blankRecord (r : Reader) (fields : Keyed Json) (h : indexed? fields = none) :
    indexed? (r.blankRecord fields) = none := by
  unfold blankRecord
  split
  · have hvalue : Number.index? "v" = none := by decide
    rw [indexed?_eq_none] at h ⊢
    rw [Keyed.names_put]
    refine .inr ?_
    rcases h with rfl | ⟨name, hname, hindex⟩
    · exact ⟨"v", by simp [Keyed.names], hvalue⟩
    · refine ⟨name, ?_, hindex⟩
      split
      · exact hname
      · exact List.mem_append_left _ hname
  · exact h

/-! ## One condition -/

/-- A record fails on a name only where it has a predicate and nothing but attribute names. -/
theorem record_put_null (h : failsOnName (r.record fields) = true) : r.record (fields.put "v" .null) = .ok none := by
  have hnames : recordNames (fields.put "v" .null) = recordNames fields := by
    simp [recordNames, Keyed.get?_put]
  unfold record at h ⊢
  rw [hnames]
  cases hread : recordNames fields with
  | error e => simp [hread, failsOnName_error, notDroppable_of_recordNames hread] at h
  | ok names =>
    simp only [hread] at h
    cases hp : (fields.get? "p").bind Json.string? with
    | none => simp [hp, failsOnName] at h
    | some p =>
      have hne : "v" ≠ "p" := by decide
      simp only [Keyed.get?_put, if_neg hne, hp]
      rfl

theorem recordCondition_blankRecord (hr : r.settings.ignoreUnknown = true) (fields : Keyed Json) :
    r.strict.recordCondition (r.blankRecord fields) = r.recordCondition fields := by
  rw [recordCondition_of_lenient hr, blankRecord]
  split
  · rename_i h
    rw [recordCondition_strict] at h ⊢
    exact record_put_null h
  · rfl

theorem namedCondition_blankNamed (hr : r.settings.ignoreUnknown = true) (key : String) (value : Json) :
    r.strict.namedCondition key (r.blankNamed key value) = r.namedCondition key value := by
  rw [namedCondition_of_lenient hr, blankNamed]
  split <;> rfl

theorem records_onMappings (hr : r.settings.ignoreUnknown = true) (value : Json) :
    r.strict.records (value.onMappings r.blankRecord) = r.records value := by
  unfold records
  rw [Json.mappings_onMappings r.indexed?_blankRecord]
  cases mappings value with
  | error e => rfl
  | ok maps =>
    simp only [Except.map, collect_map, recordCondition_blankRecord hr]

/-! ## Groups at any depth -/

mutual

theorem groups_blankGroups {r : Reader} (hr : r.settings.ignoreUnknown = true) (value : Json) :
    r.strict.groups (r.blankGroups value) = r.groups value := by
  rw [groups_eq, groups_eq, blankGroups_eq, Json.mappings_onMappings r.indexed?_blankEntries]
  cases hmaps : mappings value with
  | error e => rfl
  | ok maps =>
    -- The same mappings have been blanked, and empty junctions are left out on both sides.
    have hjunctions : collect (fun m => r.strict.junction (r.blankEntries m)) maps = collect r.junction maps := by
      apply collect_congr
      intro m hm
      have := sizeOf_lt_of_mem_mappings hmaps hm
      exact junction_blankEntries hr m
    simp only [Except.map, collect_map, hjunctions]
termination_by 2 * sizeOf value

theorem junction_blankEntries {r : Reader} (hr : r.settings.ignoreUnknown = true) (fields : Keyed Json) :
    r.strict.junction (r.blankEntries fields) = r.junction fields := by
  have hentries : collect (fun field => r.strict.contribution field.1 (r.blankValue field)) fields =
      collect (fun field => r.contribution field.1 field.2) fields := by
    apply collect_congr
    intro field hfield
    obtain ⟨key, value⟩ := field
    have := sizeOf_lt_of_mem hfield
    exact contribution_blankValue hr key value
  rw [junction_eq, junction_eq, blankEntries_eq, collect_map, hentries]
termination_by 2 * sizeOf fields

theorem contribution_blankValue {r : Reader} (hr : r.settings.ignoreUnknown = true) (key : String) (value : Json) :
    r.strict.contribution key (r.blankValue (key, value)) = r.contribution key value := by
  have hrole : r.strict.settings.role key = r.settings.role key := rfl
  rw [contribution, contribution, hrole, blankValue]
  cases r.settings.role key with
  | orGroups => simp only [groups_blankGroups hr value]
  | andGroups => simp only [groups_blankGroups hr value]
  | records => simp only [records_onMappings hr]
  | sorts => rfl
  | condition => simp only [namedCondition_blankNamed hr]
termination_by 2 * sizeOf value + 1

end

end Reader

namespace Search

variable {c : Catalog} {q : Search}

theorem add_strict (q : Search) (x : Contribution) : q.strict.add x = (q.add x).strict := by
  cases x <;> rfl

theorem addEntries_blankParams (hq : q.settings.ignoreUnknown = true) (params : Keyed Json) :
    addEntries c q.strict ((q.reader c).blankParams params) = (addEntries c q params).map strict := by
  induction params generalizing q with
  | nil => rfl
  | cons entry rest ih =>
    obtain ⟨key, value⟩ := entry
    have hsort : q.strict.settings.sortKey = q.settings.sortKey := rfl
    -- At the root the key of sorts means sorts, whatever its role in a group.
    by_cases hkey : key = q.settings.sortKey
    · have hfirst : (q.reader c).blankParams ((key, value) :: rest) =
          (key, value) :: (q.reader c).blankParams rest := by
        simp [Reader.blankParams, reader, hkey]
      rw [hfirst, addEntries, addEntries, hsort, if_pos hkey, if_pos hkey]
      cases readSorts value with
      | error e => rfl
      | ok sorts => exact ih (q := { q with sorts := sorts }) hq
    · have hfirst : (q.reader c).blankParams ((key, value) :: rest) =
          (key, (q.reader c).blankValue (key, value)) :: (q.reader c).blankParams rest := by
        simp [Reader.blankParams, reader, hkey]
      have hreader : q.strict.reader c = (q.reader c).strict := rfl
      rw [hfirst, addEntries, addEntries, hsort, if_neg hkey, if_neg hkey, hreader,
        Reader.contribution_blankValue (r := q.reader c) hq]
      cases (q.reader c).contribution key value with
      | error e => rfl
      | ok x =>
        have hrest := ih (q := q.add x) (by rwa [settings_add])
        rw [reader_add] at hrest
        dsimp only
        rw [add_strict]
        exact hrest

/-- Leaving out the conditions that fail on a name builds what making them blank builds: the same search, or the same
failure. It is never the failure of a name, and neither is one of its query, whatever has been done with the search. -/
theorem ignoring_is_blanking (s : Schema) (root : String) (settings : Settings) (params : Keyed Json)
    (h : settings.ignoreUnknown = true) :
    build s.catalog root settings.strict (Reader.blankParams ⟨s.catalog, root, settings⟩ params) =
        (build s.catalog root settings params).map strict ∧
      failsOnName (build s.catalog root settings params) = false ∧
      ∀ q ops, build s.catalog root settings params = .ok q →
        failsOnName ((q.performAll s.catalog ops).select s.catalog) = false := by
  refine ⟨?_, failsOnName_eq_false fun e => notDroppable_of_build h, ?_⟩
  · unfold build
    cases s.catalog.entity? root with
    | none => rfl
    | some _ => exact addEntries_blankParams (q := ⟨root, settings, [], [], []⟩) h params
  · intro q ops hq
    apply failsOnName_eq_false
    intro e
    apply notDroppable_of_select ((Reachable.build hq).performAll ops)
    have hsettings : (q.performAll s.catalog ops).settings = q.settings :=
      congrArg Reader.settings (reader_performAll q ops)
    rwa [hsettings, settings_of_build hq]

/-! ## Shoes, hats and songs -/

def lenient : Settings := { Settings.default with ignoreUnknown := true }

/-- Two groups, a record and a sort with names that the family does not have. -/
def strangeParams : Keyed Json :=
  [("o", .array [.object [("shoe_eq", .string "x"), ("name_eq", .string "Ernie")], .object [("hat_gt", .string "y")]]),
    ("c", .object [("a", .string "name"), ("p", .string "sings"), ("v", .string "1")]),
    ("s", .string "shoe")]

def strangeReader : Reader := ⟨family.catalog, "Person", lenient⟩

theorem ignoring_is_blanking_strange :
    failsOnName (build family.catalog "Person" lenient.strict strangeParams) = true ∧
      (Json.object (strangeReader.blankParams strangeParams)).text =
        "\x7b\"o\":[\x7b\"shoe_eq\":null,\"name_eq\":\"Ernie\"\x7d,\x7b\"hat_gt\":null\x7d]," ++
          "\"c\":\x7b\"a\":\"name\",\"p\":\"sings\",\"v\":null\x7d,\"s\":\"shoe\"\x7d" ∧
      ∃ q, build family.catalog "Person" lenient strangeParams = .ok q ∧
        build family.catalog "Person" lenient.strict (strangeReader.blankParams strangeParams) = .ok q.strict ∧
        q.leaves.length = 1 ∧ q.ors.length = 1 ∧ failsOnName (q.select family.catalog) = false := by
  refine ⟨by decide +kernel, by decide +kernel, ?_⟩
  obtain ⟨hsame, -, hselect⟩ := ignoring_is_blanking family "Person" lenient strangeParams rfl
  have hbuild : build family.catalog "Person" lenient strangeParams = .ok _ := eq_ok_get (by decide +kernel)
  refine ⟨_, hbuild, ?_, by decide +kernel, by decide +kernel, hselect _ [] hbuild⟩
  rw [hbuild] at hsame
  exact hsame

end Search

end Criteria
