import Criteria.Proofs.Conditions.Making
import Criteria.Proofs.Keys.Writing
import Criteria.Proofs.Searches.Compiles

/-!
# Records and the keys that spell them

* `Json.countFilled` — how many values a document gives that are not blank (`Value.length_of_ofJson`).
* `Keyed.IsRecord`, `Reader.spelledKey` — a condition record, and the key that says the same.
* `Condition.compileCondition_congr` — a condition compiles by its attributes, its predicate and its value; the combinator
  counts where there are several terms.
* `Reader.record_compiles_as_key` — so a record and its key compile alike, though their conditions differ.
-/

namespace Criteria

/-! ## Values -/

/-- How many values are not blank. -/
def Json.countFilled : Json → Nat
  | .array items => items.countP isFilledItem
  | .object fields => (Keyed.values fields).countP isFilledItem
  | value => if value.isFilledItem then 1 else 0

namespace Value

theorem length_of_ofItems {items : List Json} {w : Value} (h : ofItems items = .ok (some w)) :
    w.texts.length = items.countP Json.isFilledItem := by
  unfold ofItems at h
  split at h
  · cases h
  · rename_i texts htexts
    have hitems := map_isFilledItem htexts
    replace h := Except.ok.inj h
    unfold unlessBlank at h
    split at h <;> cases h
    calc (texts.filter fun s => !Text.isBlank s).length
        = (texts.map fun s => !Text.isBlank s).countP id := by rw [← List.countP_eq_length_filter, List.countP_map]; rfl
      _ = items.countP Json.isFilledItem := by rw [hitems, List.countP_map]; rfl

/-- The value that is read has the texts that are not blank. -/
theorem length_of_ofJson {v : Json} {w : Value} (h : ofJson v = .ok (some w)) : w.texts.length = v.countFilled := by
  have hfilled : v.isFilled = true := (isSome_ofJson h).symm
  unfold ofJson at h
  split at h
  · exact length_of_ofItems h
  · split at h
    · rename_i hitems
      rw [length_of_ofItems h]
      exact (perm_indexed? hitems).countP_eq _
    · split at h <;> cases h
  · rename_i other _ _
    replace h := Except.ok.inj h
    unfold unlessBlank at h
    split at h <;> cases h
    cases v <;> simp_all [Json.countFilled, Json.isFilled, texts]

end Value

theorem Reader.asksSeveral_eq (p : Predicate) (w : Value) :
    asksSeveral p w = decide (p.arity = .single ∧ 2 ≤ w.texts.length) := by
  cases w with
  | scalar s => simp [asksSeveral, Value.texts]
  | list ss => simp [asksSeveral, Value.texts, Predicate.takesSeveral, Nat.succ_le_iff, beq_eq_decide]

/-! ## Conditions that compile alike -/

namespace Condition

variable {c : Catalog} {cond : Condition}

/-- A predicate with one value, or with all values in one, gives one term. -/
theorem length_columnTerms {column : Column} {terms : List Expr} (h : cond.columnTerms column = .ok terms)
    (hone : cond.predicate.arity = .single → cond.value.texts.length = 1) : terms.length = 1 := by
  unfold columnTerms at h
  split at h
  · rename_i harity
    rw [length_collect h, hone harity]
  · exact length_collect h
  · split at h
    · cases h
    · exact length_collect h

/-- So it does for a single attribute. -/
theorem length_attributeTerms {t u : JoinTable} {path : AttributePath} {terms : List Expr}
    (h : cond.attributeTerms c t [path] = (u, .ok terms))
    (hone : cond.predicate.arity = .single → cond.value.texts.length = 1) : terms.length = 1 := by
  obtain ⟨v, column, first, more, -, hfirst, hmore, rfl⟩ := attributeTerms_cons_eq_ok h
  cases hmore
  rw [List.append_nil]
  exact length_columnTerms hfirst hone

theorem attributeTerms_congr {other : Condition} (hp : other.predicate = cond.predicate)
    (hvalue : other.value = cond.value) (t : JoinTable) (paths : List AttributePath) :
    other.attributeTerms c t paths = cond.attributeTerms c t paths := by
  have hcolumn (column : Column) : other.columnTerms column = cond.columnTerms column := by
    unfold columnTerms
    rw [hp, hvalue]
  induction paths generalizing t with
  | nil => rfl
  | cons path rest ih => simp only [attributeTerms, hcolumn, ih]

/-- Conditions on the same attributes with the same predicate and value compile alike, if they have the same combinator
or there is nothing to join. -/
theorem compileCondition_congr {other : Condition} (hattributes : other.attributes = cond.attributes)
    (hp : other.predicate = cond.predicate) (hvalue : other.value = cond.value)
    (hjoin : other.combinator = cond.combinator ∨
      (cond.attributes.length = 1 ∧ (cond.predicate.arity = .single → cond.value.texts.length = 1)))
    (c : Catalog) (t : JoinTable) : compileCondition c other t = compileCondition c cond t := by
  rw [compileCondition, compileCondition, hattributes, attributeTerms_congr hp hvalue]
  rcases hjoin with hjoin | ⟨hpaths, hone⟩
  · rw [hjoin]
  · obtain ⟨path, hpath⟩ := List.length_eq_one_iff.1 hpaths
    rw [hpath]
    cases hterms : cond.attributeTerms c t [path] with
    | mk u result =>
      cases result with
      | error e => rfl
      | ok terms =>
        -- a lone term is not joined at all
        obtain ⟨term, rfl⟩ := List.length_eq_one_iff.1 (length_attributeTerms hterms hone)
        rfl

end Condition

/-! ## Records -/

/-- A record of attributes, none of them blank, a predicate, a value and a combinator; any text but "or", or none, means
"and". -/
structure Keyed.IsRecord (fields : Keyed Json) (names : List String) (p : Predicate) (v : Json) (m : Combinator) :
    Prop where
  attributes : fields.get? "a" = some (.array (names.map .string)) ∨
    ∃ name, fields.get? "a" = some (.string name) ∧ names = [name]
  notBlank : ∀ name ∈ names, Text.isBlank name = false
  predicate : fields.get? "p" = some (.string p.name)
  value : fields.get? "v" = some v
  combinator : (((fields.get? "m").bind Json.string?).map Combinator.ofText).getD .and = m

namespace Reader

variable {r : Reader} {fields : Keyed Json} {names : List String} {p : Predicate} {v : Json} {m : Combinator}
  {cond : Condition}

/-- The ending for several values, where there are several and the predicate takes them one by one. -/
def severalOf (m : Combinator) (p : Predicate) (v : Json) : Option Combinator :=
  if p.arity = .single ∧ 2 ≤ v.countFilled then some m else none

/-- The key that says what a record does. -/
def spelledKey (names : List String) (m : Combinator) (p : Predicate) (v : Json) : String :=
  recordKey names m p ++ ConditionKey.severalEnding (severalOf m p v)

theorem recordNames_of_isRecord (h : fields.IsRecord names p v m) : recordNames fields = .ok names := by
  have hkept : (names.filter fun name => !Text.isBlank name) = names :=
    List.filter_eq_self.2 fun name hname => by simp [h.notBlank name hname]
  rcases h.attributes with hlist | ⟨name, hname, rfl⟩
  · have hall : collect attributeName (names.map .string) = .ok names := by
      rw [collect_eq_ok, List.map_map]
      rfl
    simp only [recordNames, hlist, hall, hkept]
  · simp only [recordNames, hname, hkept]

/-- What a record makes its condition of. -/
theorem record_eq_some (hrecord : fields.IsRecord names p v m) (h : r.record fields = .ok (some cond)) :
    ∃ value paths, Value.ofJson v = .ok (some value) ∧
      AttributePath.resolveAll r.catalog r.root names = .ok paths ∧
      Condition.make (recordKey names m p) paths p value m (asksSeveral p value) = .ok (some cond) := by
  obtain ⟨names', read, hnames, hread, ⟨-, hnone⟩ | ⟨value, p', m', paths, rfl, -, hp, hm, hpaths, hmade⟩⟩ :=
    record_eq_ok h
  · cases hnone
  · rw [recordNames_of_isRecord hrecord] at hnames
    cases hnames
    rw [hrecord.predicate] at hp
    obtain rfl : p = p' := Option.some.inj (p.ofName?_name.symm.trans hp)
    rw [hrecord.combinator] at hm
    subst hm
    rw [hrecord.value] at hread
    exact ⟨value, paths, hread, hpaths, hmade⟩

/-- Where the key of a record reads as its attributes and its predicate, it makes the same condition under its own name.
The combinators may differ where there is one attribute and one value, and nothing to join. -/
theorem named_of_record (hrecord : fields.IsRecord names p v m) (h : r.record fields = .ok (some cond))
    {k : ConditionKey} (hk : ConditionKey.parse? (spelledKey names m p v) = some k) (hnames : k.attributes = names)
    (hp : k.predicate = p) :
    ∃ value, Value.ofJson v = .ok (some value) ∧
      r.named (spelledKey names m p v) value =
        .ok (some { cond with key := spelledKey names m p v, combinator := k.combinator }) ∧
      (k.combinator = cond.combinator ∨
        (cond.attributes.length = 1 ∧ (cond.predicate.arity = .single → cond.value.texts.length = 1))) := by
  subst hnames hp
  obtain ⟨value, paths, hvalue, hpaths, hmade⟩ := record_eq_some hrecord h
  obtain ⟨hseveral, hcombinator⟩ := ConditionKey.parse?_recordKey_shows hk
  have hlength := Value.length_of_ofJson hvalue
  -- the record and its key agree on whether they ask for several values, so that they hold them in one shape
  have hasks : asksSeveral k.predicate value = k.several := by
    rw [asksSeveral_eq, hlength, hseveral, severalOf]
    split <;> simp [*]
  have hsingle : k.several = true → k.predicate.arity = .single :=
    fun hs => Predicate.takesSeveral_iff.1 (ConditionKey.takesSeveral_of_several hk hs)
  rw [hasks] at hmade
  obtain ⟨hkept, hsuited, w, hshape, rfl⟩ := (Condition.make_eq_some_iff hsingle).1 hmade
  refine ⟨value, hvalue, ?_, ?_⟩
  · rw [named, if_neg (by simp [Value.isBlank_of_ofJson hvalue]), hk]
    dsimp only
    rw [hpaths]
    exact (Condition.make_eq_some_iff hsingle).2 ⟨hkept, hsuited, w, hshape, rfl⟩
  · rcases hcombinator with hcombinator | ⟨hnone, hone⟩
    · left
      rw [hcombinator, severalOf]
      split <;> rfl
    · refine .inr ⟨(length_collect hpaths).trans hone, fun harity => ?_⟩
      have hfew : ¬ (k.predicate.arity = .single ∧ 2 ≤ v.countFilled) := by
        intro hmany
        rw [severalOf, if_pos hmany] at hnone
        cases hnone
      have hle : value.kept.length ≤ value.texts.length := List.length_filter_le _ _
      have hpos : 0 < value.kept.length := List.length_pos_iff.2 hkept
      show w.texts.length = 1
      rw [hshape.texts_eq]
      have : ¬ 2 ≤ v.countFilled := fun hmany => hfew ⟨harity, hmany⟩
      omega

/-- A record and the key that spells it say the same: wherever the key reads as the attributes and the predicate of a
record that makes a condition, it makes one of the same value too. The two conditions compile to the same expression and
leave the same joins, whatever has been joined before. -/
theorem record_compiles_as_key (s : Schema) {rootName : String} {root : Entity}
    (hroot : s.catalog.entity? rootName = some root) (settings : Settings) (hrecord : fields.IsRecord names p v m)
    (h : Reader.record ⟨s.catalog, rootName, settings⟩ fields = .ok (some cond)) {k : ConditionKey}
    (hk : ConditionKey.parse? (spelledKey names m p v) = some k) (hnames : k.attributes = names)
    (hp : k.predicate = p) :
    ∃ other, Reader.namedCondition ⟨s.catalog, rootName, settings⟩ (spelledKey names m p v) v = .ok (some other) ∧
      (settings.role (spelledKey names m p v) = .condition →
        Reader.contribution ⟨s.catalog, rootName, settings⟩ (spelledKey names m p v) v =
          .ok (.condition (some other))) ∧
      (∀ (c : Catalog) (t : JoinTable), compileCondition c other t = compileCondition c cond t) ∧
      ∀ t, JoinTable.Reachable s.catalog root t → ∃ u term, compileCondition s.catalog cond t = (u, .ok term) ∧
        compileCondition s.catalog other t = (u, .ok term) := by
  obtain ⟨value, hvalue, hnamed, hjoin⟩ := named_of_record hrecord h hk hnames hp
  have hcondition : Reader.namedCondition ⟨s.catalog, rootName, settings⟩ (spelledKey names m p v) v =
      .ok (some { cond with key := spelledKey names m p v, combinator := k.combinator }) := by
    simp only [namedCondition, hvalue, hnamed, tolerate]
  have hsame (c : Catalog) (t : JoinTable) : compileCondition c
      { cond with key := spelledKey names m p v, combinator := k.combinator } t = compileCondition c cond t :=
    Condition.compileCondition_congr (by rfl) (by rfl) (by rfl) hjoin c t
  refine ⟨_, hcondition, ?_, hsame, ?_⟩
  · intro hrole
    simp only [contribution, hrole, hcondition]
  · intro t ht
    have hstart : t.root = root := ht.grows.continues.root
    have hname : root.name = rootName := s.named_catalog hroot
    have hown : s.catalog.entity? t.root.name = some t.root := by rw [hstart, hname, hroot]
    have hsound : cond.Sound s.catalog t.root.name := by
      rw [hstart, hname]
      exact sound_of_record h
    obtain ⟨u, term, hterm⟩ := Condition.compileCondition_isOk s.named_catalog ht.wellFormed hown hsound
    exact ⟨u, term, hterm, (hsame s.catalog t).trans hterm⟩

/-- The names of a person or of a child, one of which is blank. -/
def threeNames : Json := .array [.string "Ernie", .string " ", .string "Bert"]

/-- A record of a name that a person or a child has. -/
def namesRecord : Keyed Json :=
  [("v", threeNames), ("a", .array [.string "children_name", .string "name"]), ("m", .string " OR "), ("p", .string "eq")]

theorem isRecord_namesRecord : namesRecord.IsRecord ["children_name", "name"] .eq threeNames .or where
  attributes := .inl rfl
  notBlank := by decide
  predicate := rfl
  value := rfl
  combinator := by decide

/-- The key that spells it. -/
theorem spelledKey_namesRecord :
    spelledKey ["children_name", "name"] .or .eq threeNames = "children_name_or_name_eq_any" := by decide

/-- What the record makes. -/
def namesCondition : Condition where
  key := "children_name_or_name_eq"
  attributes := [⟨"children_name", "Person", [⟨"children", "Person", "Person"⟩], "Person", "name", .string⟩,
    ⟨"name", "Person", [], "Person", "name", .string⟩]
  predicate := .eq
  value := .list ["Ernie", "Bert"]
  combinator := .or

/-- What it compiles to: each name is compared with each value that is not blank. -/
def namesTerm : Expr :=
  .group .or [.compare ⟨"children_people", "name", .string⟩ .eq (.text "Ernie"),
    .compare ⟨"children_people", "name", .string⟩ .eq (.text "Bert"),
    .compare ⟨"people", "name", .string⟩ .eq (.text "Ernie"), .compare ⟨"people", "name", .string⟩ .eq (.text "Bert")]

/-- The record and the key make conditions that compile alike into a table without joins, and join the children. -/
theorem record_compiles_as_key_names :
    namesRecord.IsRecord ["children_name", "name"] .eq threeNames .or ∧
      ConditionKey.parse? "children_name_or_name_eq_any" = some ⟨["children_name", "name"], .eq, .or, true⟩ ∧
      Search.family.catalog.entity? "Person" = some Search.person ∧
      Reader.record ⟨Search.family.catalog, "Person", .default⟩ namesRecord = .ok (some namesCondition) ∧
      ∃ other u,
        Reader.namedCondition ⟨Search.family.catalog, "Person", .default⟩ "children_name_or_name_eq_any" threeNames =
          .ok (some other) ∧
        compileCondition Search.family.catalog namesCondition (.start Search.person) = (u, .ok namesTerm) ∧
        compileCondition Search.family.catalog other (.start Search.person) = (u, .ok namesTerm) ∧
        u.joins.map Join.aliasName = ["children_people"] := by
  have hroot : Search.family.catalog.entity? "Person" = some Search.person := (Option.some_get _).symm
  have hcond : Reader.record ⟨Search.family.catalog, "Person", .default⟩ namesRecord = .ok (some namesCondition) :=
    eq_ok_of_toOption (by decide +kernel)
  have hk : ConditionKey.parse? (spelledKey ["children_name", "name"] .or .eq threeNames) =
      some ⟨["children_name", "name"], .eq, .or, true⟩ := by decide
  obtain ⟨other, hother, -, -, hcompiles⟩ :=
    record_compiles_as_key Search.family hroot .default isRecord_namesRecord hcond hk rfl rfl
  obtain ⟨u, term, hterm, hsame⟩ := hcompiles _ .start
  have hcompiled : (compileCondition Search.family.catalog namesCondition (.start Search.person)).2 = .ok namesTerm :=
    rfl
  have hjoined : (compileCondition Search.family.catalog namesCondition (.start Search.person)).1.joins.map
      Join.aliasName = ["children_people"] := rfl
  rw [hterm] at hcompiled hjoined
  cases hcompiled
  rw [spelledKey_namesRecord] at hother hk
  exact ⟨isRecord_namesRecord, hk, hroot, hcond, other, u, hother, hterm, hsame, hjoined⟩

end Reader

end Criteria
