import Criteria.Proofs.Conditions.Making
import Criteria.Proofs.Searches.Removals

/-!
# Building and writing

* `Value.json` — a value as parameters write it.
* `Change.result`, `Search.setAll` — keys written in order, up to the first that fails.
* `Search.contribution_eq_set` — an entry adds what writing its key does, where no condition has the key.
* `Search.build_eq_setAll` — so entries of distinct keys build what writing them makes of a search without any; and
  or-groups that stand last are those that are added later.
-/

namespace Criteria

/-! ## Values as parameters write them -/

namespace Value

/-- The text or the list of texts that a value is. -/
def json : Value → Json
  | scalar s => .string s
  | list ss => .array (ss.map .string)

theorem withoutBlanks_withoutBlanks (v : Value) : v.withoutBlanks.withoutBlanks = v.withoutBlanks := by
  cases v with
  | scalar s => rfl
  | list ss => simp [withoutBlanks]

theorem ofJson_json (v : Value) : ofJson v.json = .ok v.withoutBlanks.unlessBlank := by
  cases v with
  | scalar s => rfl
  | list ss =>
    have htexts : collect itemText (ss.map .string) = .ok ss := by
      rw [collect_eq_ok, List.map_map]
      rfl
    rw [json, ofJson, ofItems, htexts]

end Value

theorem Condition.make_withoutBlanks {key : String} {paths : List AttributePath} {p : Predicate} {value : Value}
    {m : Combinator} {several : Bool} :
    make key paths p value.withoutBlanks m several = make key paths p value m several := by
  unfold make
  rw [Value.withoutBlanks_withoutBlanks]

namespace Reader

variable {r : Reader} {key : String} {value : Value}

theorem named_withoutBlanks : r.named key value.withoutBlanks = r.named key value := by
  unfold named
  rw [Value.isBlank_withoutBlanks]
  simp only [Condition.make_withoutBlanks]

theorem tolerate_of_notDroppable {result : Except SearchError (Option Condition)}
    (h : ∀ e, result = .error e → e.isDroppable = false) : r.tolerate result = result := by
  unfold tolerate
  split
  · rename_i e
    simp [h e rfl]
  · rfl

/-- A key whose attributes resolve fails on its value only, so that a lenient reader passes over nothing. -/
theorem namedCondition_json {k : ConditionKey} {paths : List AttributePath} (hk : ConditionKey.parse? key = some k)
    (hpaths : AttributePath.resolveAll r.catalog r.root k.attributes = .ok paths) :
    r.namedCondition key value.json = r.named key value := by
  have hfails : ∀ e, r.named key value = .error e → e.isDroppable = false := by
    intro e he
    unfold named at he
    rw [hk] at he
    dsimp only at he
    rw [hpaths] at he
    dsimp only at he
    split at he
    · cases he
    · obtain ⟨misfit, rfl⟩ := Condition.misfit_of_make he
      rfl
  rw [namedCondition, Value.ofJson_json]
  cases hblank : value.isBlank with
  | true =>
    rw [Value.unlessBlank, Value.isBlank_withoutBlanks, if_pos hblank, named_of_isBlank hblank]
  | false =>
    have hkept : ¬ value.withoutBlanks.isBlank = true := by simp [Value.isBlank_withoutBlanks, hblank]
    rw [Value.unlessBlank, if_neg hkept]
    dsimp only
    rw [named_withoutBlanks, tolerate_of_notDroppable hfails]

end Reader

/-! ## Keys that no condition has -/

namespace Junction

theorem remove_of_notMem {key : String} {j : Junction} (h : key ∉ j.keys) : j.remove key = j := by
  induction j with
  | nil => rfl
  | cons node rest ih =>
    cases node with
    | group m members => rw [remove, ih (by simpa using h)]
    | condition old =>
      rw [keys_cons_condition, List.mem_cons, not_or] at h
      rw [remove, if_neg (Ne.symm h.1), ih h.2]

end Junction

namespace Settings

variable {s : Settings} {key : String}

theorem role_of_not_reserved (h : s.isReserved key = false) : s.role key = .condition := by
  simp only [isReserved, Bool.or_eq_false_iff, beq_eq_false_iff_ne] at h
  obtain ⟨⟨⟨hor, hand⟩, hrecord⟩, hsort⟩ := h
  rw [role, if_neg hor, if_neg hand, if_neg hrecord, if_neg hsort]

theorem ne_sortKey_of_not_reserved (h : s.isReserved key = false) : key ≠ s.sortKey := by
  simp only [isReserved, Bool.or_eq_false_iff, beq_eq_false_iff_ne] at h
  exact h.2

end Settings

/-! ## Writing keys in order -/

/-- The search after a change that succeeds, or why the change fails. -/
def Search.Change.result : Change → Except SearchError Search
  | (_, .error e) => .error e
  | (after, .ok ()) => .ok after

namespace Search

variable {c : Catalog} {q after : Search} {key : String} {value : Value} {e : SearchError}

/-- Writes values of the base in order, up to the first that fails. -/
def setAll (c : Catalog) (q : Search) : Keyed Value → Except SearchError Search
  | [] => .ok q
  | (key, value) :: rest => (q.set c key value).result.bind fun after => setAll c after rest

theorem set_result_eq_ok : (q.set c key value).result = .ok after ↔ q.set c key value = (after, .ok ()) := by
  obtain ⟨next, result⟩ := q.set c key value
  cases result <;> simp [Change.result]

theorem set_result_eq_error : (q.set c key value).result = .error e ↔ q.set c key value = (q, .error e) := by
  cases h : q.set c key value with
  | mk next result =>
    cases result with
    | ok u => simp [Change.result]
    | error e' =>
      obtain rfl := set_eq_error h
      simp [Change.result]

/-- Writing keys up to the end is what these operations do in order. -/
theorem performAll_of_setAll {pairs : Keyed Value} (h : setAll c q pairs = .ok after) :
    after = q.performAll c (pairs.map fun pair => .set pair.1 pair.2) := by
  induction pairs generalizing q with
  | nil =>
    cases h
    rfl
  | cons pair rest ih =>
    obtain ⟨key, value⟩ := pair
    unfold setAll at h
    cases hset : (q.set c key value).result with
    | error e =>
      rw [hset] at h
      cases h
    | ok next =>
      rw [hset] at h
      have hstep : q.perform c (.set key value) = next := congrArg Prod.fst (set_result_eq_ok.1 hset)
      rw [ih h, ← hstep]
      rfl

/-- The first key that fails says why, and those before it have been written. -/
theorem setAll_eq_error {pairs : Keyed Value} : setAll c q pairs = .error e ↔
    ∃ before key value rest next, pairs = before ++ (key, value) :: rest ∧ setAll c q before = .ok next ∧
      next.set c key value = (next, .error e) := by
  induction pairs generalizing q with
  | nil => simp [setAll]
  | cons pair rest ih =>
    obtain ⟨key, value⟩ := pair
    rw [setAll]
    cases hset : (q.set c key value).result with
    | error e' =>
      constructor
      · intro h
        cases h
        exact ⟨[], key, value, rest, q, rfl, rfl, set_result_eq_error.1 hset⟩
      · rintro ⟨before, key', value', rest', next, hpairs, hbefore, hfails⟩
        cases before with
        | nil =>
          cases hpairs
          cases hbefore
          rw [set_result_eq_error.2 hfails] at hset
          cases hset
          rfl
        | cons first before =>
          cases hpairs
          rw [setAll, hset] at hbefore
          cases hbefore
    | ok after =>
      show setAll c after rest = .error e ↔ _
      rw [ih]
      constructor
      · rintro ⟨before, key', value', rest', next, rfl, hbefore, hfails⟩
        refine ⟨(key, value) :: before, key', value', rest', next, rfl, ?_, hfails⟩
        rw [setAll, hset]
        exact hbefore
      · rintro ⟨before, key', value', rest', next, hpairs, hbefore, hfails⟩
        cases before with
        | nil =>
          cases hpairs
          cases hbefore
          rw [set_result_eq_error.2 hfails] at hset
          cases hset
        | cons first before =>
          cases hpairs
          rw [setAll, hset] at hbefore
          exact ⟨before, key', value', rest', next, rfl, hbefore, hfails⟩

/-! ## Building -/

/-- A search without conditions, or-groups and sorts. -/
def empty (root : String) (settings : Settings) : Search := ⟨root, settings, [], [], []⟩

theorem isAccessor_iff : q.isAccessor c key = true ↔ ∃ k paths, ConditionKey.parse? key = some k ∧
    AttributePath.resolveAll c q.root k.attributes = .ok paths := by
  unfold isAccessor
  cases ConditionKey.parse? key with
  | none => simp
  | some k =>
    simp only [List.all_eq_true, Option.some.injEq]
    constructor
    · intro h
      obtain ⟨paths, hpaths⟩ : ∃ paths, AttributePath.resolveAll c q.root k.attributes = .ok paths := by
        apply collect_isOk
        intro name hname
        cases hresolve : AttributePath.resolve c q.root name with
        | ok a => exact ⟨a, rfl⟩
        | error e =>
          have hname := h name hname
          rw [AttributePath.isResolvable, hresolve] at hname
          cases hname
      exact ⟨k, paths, rfl, hpaths⟩
    · rintro ⟨_, paths, rfl, hpaths⟩ name hname
      obtain ⟨a, ha⟩ := isOk_of_collect hpaths hname
      rw [AttributePath.isResolvable, ha]
      rfl

/-- What an entry adds is what writing its key does, where no condition has the key. -/
theorem contribution_eq_set (hkey : q.isAccessor c key = true) (hrole : q.settings.isReserved key = false)
    (hnew : key ∉ q.base.keys) :
    ((q.reader c).contribution key value.json).map q.add = (q.set c key value).result := by
  obtain ⟨k, paths, hk, hpaths⟩ := isAccessor_iff.1 hkey
  have hcondition : (q.reader c).settings.role key = .condition := Settings.role_of_not_reserved hrole
  rw [Reader.contribution, hcondition]
  dsimp only
  rw [Reader.namedCondition_json hk hpaths, set, if_pos hkey, putCondition]
  cases (q.reader c).named key value with
  | error e => rfl
  | ok found =>
    cases found with
    | some cond => rfl
    | none =>
      show Except.ok q = .ok { q with base := q.base.remove key }
      rw [Junction.remove_of_notMem hnew]

/-- Writing a key brings in no other one, and leaves the rest of the search as it was. -/
theorem keys_of_set (h : q.set c key value = (after, .ok ())) :
    after.root = q.root ∧ after.settings = q.settings ∧ ∀ other ∈ after.base.keys, other = key ∨ other ∈ q.base.keys := by
  obtain ⟨-, base, hput, rfl⟩ := set_eq_ok.1 h
  refine ⟨rfl, rfl, ?_⟩
  intro other hother
  cases hblank : value.isBlank with
  | true =>
    rw [putCondition_of_isBlank hblank] at hput
    cases hput
    rw [Junction.keys_remove] at hother
    exact .inr (List.mem_of_mem_erase hother)
  | false =>
    obtain ⟨cond, hmade, rfl⟩ := (putCondition_eq_ok hblank).1 hput
    obtain rfl := (Reader.isWritten_of_named hmade).key_eq
    rw [Junction.keys_upsert] at hother
    split at hother
    · exact .inr hother
    · rcases List.mem_append.1 hother with hother | hother
      · exact .inr hother
      · exact .inl (List.mem_singleton.1 hother)

/-- Distinct keys, each of which names a condition of the root entity. -/
structure Settable (c : Catalog) (root : String) (settings : Settings) (pairs : Keyed Value) : Prop where
  nodup : pairs.names.Nodup
  notReserved : ∀ key ∈ pairs.names, settings.isReserved key = false
  isAccessor : ∀ key ∈ pairs.names, (empty root settings).isAccessor c key = true

theorem Settable.tail {root : String} {settings : Settings} {pair : String × Value} {rest : Keyed Value}
    (h : Settable c root settings (pair :: rest)) : Settable c root settings rest where
  nodup := (List.nodup_cons.1 h.nodup).2
  notReserved key hkey := h.notReserved key (List.mem_cons_of_mem _ hkey)
  isAccessor key hkey := h.isAccessor key (List.mem_cons_of_mem _ hkey)

/-- The entries of parameters that write values under keys. -/
def entriesOf (pairs : Keyed Value) : Keyed Json := pairs.map (Prod.map id Value.json)

/-- Adding entries is writing their keys, where no condition has one of them. -/
theorem addEntries_eq_setAll {pairs : Keyed Value} (h : Settable c q.root q.settings pairs)
    (hnew : ∀ key ∈ pairs.names, key ∉ q.base.keys) : addEntries c q (entriesOf pairs) = setAll c q pairs := by
  induction pairs generalizing q with
  | nil => rfl
  | cons pair rest ih =>
    obtain ⟨key, value⟩ := pair
    have hreserved : q.settings.isReserved key = false := h.notReserved key List.mem_cons_self
    have hkey : q.isAccessor c key = true := h.isAccessor key List.mem_cons_self
    have hset : ((q.reader c).contribution key value.json).map q.add = (q.set c key value).result :=
      contribution_eq_set hkey hreserved (hnew key List.mem_cons_self)
    show addEntries c q ((key, value.json) :: entriesOf rest) = _
    rw [addEntries, if_neg (Settings.ne_sortKey_of_not_reserved hreserved), setAll, ← hset]
    cases hx : (q.reader c).contribution key value.json with
    | error e => rfl
    | ok x =>
      rw [hx] at hset
      obtain ⟨hroot, hsettings, hkeys⟩ := keys_of_set (set_result_eq_ok.1 hset.symm)
      apply ih
      · rw [hroot, hsettings]
        exact h.tail
      · intro other hother hmem
        rcases hkeys other hmem with rfl | hmem
        · exact (List.nodup_cons.1 h.nodup).1 hother
        · exact hnew other (List.mem_cons_of_mem _ hother) hmem

/-- Or-groups that stand behind all entries come in behind all others. -/
theorem addEntries_orGroups {groups : Json} (h : q.settings.orGroupKey ≠ q.settings.sortKey) :
    addEntries c q [(q.settings.orGroupKey, groups)] = (q.pushOrs c groups).result := by
  have hrole : (q.reader c).settings.role q.settings.orGroupKey = .orGroups := if_pos rfl
  rw [addEntries, if_neg h, Reader.contribution, hrole, pushOrs]
  dsimp only
  cases (q.reader c).groups groups <;> rfl

/-- The parameters of distinct keys of conditions build the search that an empty one becomes by writing these keys in
order, and where a key fails they fail with it. Or-groups behind any parameters build what adding them to the search of
these parameters does. -/
theorem build_eq_setAll (c : Catalog) (root : String) (settings : Settings) (pairs : Keyed Value)
    (h : Settable c root settings pairs) :
    build c root settings (entriesOf pairs) = (build c root settings []).bind (fun q => setAll c q pairs) ∧
      (∀ q, build c root settings (entriesOf pairs) = .ok q →
        q = (empty root settings).performAll c (pairs.map fun pair => .set pair.1 pair.2)) ∧
      (∀ e, build c root settings (entriesOf pairs) = .error e ↔
        (c.entity? root = none ∧ e = .unknownEntity root) ∨
          ((c.entity? root).isSome = true ∧ ∃ before key value rest next, pairs = before ++ (key, value) :: rest ∧
            setAll c (empty root settings) before = .ok next ∧ next.set c key value = (next, .error e))) ∧
      (settings.orGroupKey ≠ settings.sortKey → ∀ (params : Keyed Json) (groups : Json),
        build c root settings (params ++ [(settings.orGroupKey, groups)]) =
          (build c root settings params).bind fun q => (q.pushOrs c groups).result) := by
  have hsets : addEntries c (empty root settings) (entriesOf pairs) = setAll c (empty root settings) pairs :=
    addEntries_eq_setAll h fun key _ => List.not_mem_nil
  refine ⟨?_, ?_, ?_, ?_⟩
  · unfold build
    cases c.entity? root with
    | none => rfl
    | some e => exact hsets
  · intro q hq
    unfold build at hq
    split at hq
    · cases hq
    · exact performAll_of_setAll (hsets.symm.trans hq)
  · intro e
    unfold build
    cases c.entity? root with
    | none => simp [eq_comm]
    | some entity =>
      show addEntries c (empty root settings) (entriesOf pairs) = .error e ↔ _
      rw [hsets, setAll_eq_error]
      simp
  · intro hne params groups
    unfold build
    cases c.entity? root with
    | none => rfl
    | some entity =>
      show addEntries c (empty root settings) _ = (addEntries c (empty root settings) params).bind _
      rw [addEntries_append]
      cases hparams : addEntries c (empty root settings) params with
      | error e => rfl
      | ok q =>
        have hsettings : q.settings = settings := congrArg Reader.settings (addEntries_eq_ok hparams).1
        subst hsettings
        exact addEntries_orGroups hne

/-- Names with a blank one among them, a name that is blank, and a salary. -/
def namesAndSalary (salary : String) : Keyed Value :=
  [("name_eq_any", .list ["Ernie", " ", "Bert"]), ("name_cont", .scalar " "), ("salary_gt", .scalar salary)]

theorem settable_namesAndSalary (salary : String) : Settable family.catalog "Person" .default (namesAndSalary salary) where
  nodup := show ["name_eq_any", "name_cont", "salary_gt"].Nodup by decide
  notReserved := show ∀ key ∈ ["name_eq_any", "name_cont", "salary_gt"], _ by decide
  isAccessor := show ∀ key ∈ ["name_eq_any", "name_cont", "salary_gt"], _ by decide +kernel

/-- Two conditions are written, the blank name writes none; a salary that is no number fails, as it does in parameters. -/
theorem build_eq_setAll_names :
    (∀ salary, Settable family.catalog "Person" .default (namesAndSalary salary)) ∧
      (∃ q, build family.catalog "Person" .default (entriesOf (namesAndSalary "5")) = .ok q ∧ q.base.length = 2 ∧
        build family.catalog "Person" .default (entriesOf (namesAndSalary "5") ++ [("o", halfGroups)]) =
          (q.pushOrs family.catalog halfGroups).result) ∧
      ∃ (e : SearchError) (key : String) (value : Value) (next : Search),
        build family.catalog "Person" .default (entriesOf (namesAndSalary "five")) = .error e ∧
          (key, value) ∈ namesAndSalary "five" ∧ next.set family.catalog key value = (next, .error e) := by
  refine ⟨settable_namesAndSalary, ?_, ?_⟩
  · have hall := build_eq_setAll family.catalog "Person" .default _ (settable_namesAndSalary "5")
    have hok : (build family.catalog "Person" .default (entriesOf (namesAndSalary "5"))).toOption.isSome = true := by
      decide +kernel
    have hbuild := eq_ok_get hok
    refine ⟨_, hbuild, ?_, ?_⟩
    · rw [hall.2.1 _ hbuild]
      decide +kernel
    · have hgroups := hall.2.2.2 (by decide) (entriesOf (namesAndSalary "5")) halfGroups
      rw [hbuild] at hgroups
      exact hgroups
  · have hall := build_eq_setAll family.catalog "Person" .default _ (settable_namesAndSalary "five")
    cases hbuild : build family.catalog "Person" .default (entriesOf (namesAndSalary "five")) with
    | ok q =>
      have hfails : (build family.catalog "Person" .default (entriesOf (namesAndSalary "five"))).isOk = false := by
        decide +kernel
      rw [hbuild] at hfails
      cases hfails
    | error e =>
      rcases (hall.2.2.1 e).1 hbuild with ⟨hnone, -⟩ | ⟨-, before, key, value, rest, next, hpairs, -, hset⟩
      · have hroot : (family.catalog.entity? "Person").isSome = true := by decide +kernel
        rw [hnone] at hroot
        cases hroot
      · exact ⟨e, key, value, next, rfl, by simp [hpairs], hset⟩

end Search

end Criteria
