import Criteria.Proofs.Searches.Compiles

/-!
# Failures on names

Where a lenient search fails, no name is to blame.

* `failsOnName` — a failure of a predicate or an attribute that nobody knows.
* `Reader.notDroppable_of_contribution` — what a lenient reader does not read has another fault, at any depth.
* `Search.notDroppable_of_build`, `notDroppable_of_select` — so has what it does not build or compile.
-/

namespace Criteria

variable {α : Type} {e : SearchError} {value : Json} {fields : Keyed Json}

/-- Whether a result is the failure of a name that means nothing. -/
def failsOnName : Except SearchError α → Bool
  | .error (.unknownPredicate _) | .error (.unresolvedAttribute _ _) => true
  | _ => false

theorem failsOnName_error (e : SearchError) : failsOnName (.error e : Except SearchError α) = e.isDroppable := by
  cases e <;> rfl

theorem failsOnName_eq_false {result : Except SearchError α} (h : ∀ e, result = .error e → e.isDroppable = false) :
    failsOnName result = false := by
  cases result with
  | error e => rw [failsOnName_error, h e rfl]
  | ok x => rfl

/-! ## Shapes -/

theorem notDroppable_of_asMapping {item : Json} (h : asMapping item = .error e) : e.isDroppable = false := by
  cases item <;> cases h <;> rfl

theorem notDroppable_of_mappings (h : mappings value = .error e) : e.isDroppable = false := by
  have hitems {items : List Json} (h : collect asMapping items = .error e) : e.isDroppable = false := by
    obtain ⟨item, -, hitem⟩ := exists_of_collect_error h
    exact notDroppable_of_asMapping hitem
  unfold mappings at h
  split at h
  · cases h
  · split at h <;> cases h
    rfl
  · exact hitems h
  · split at h
    · exact hitems h
    · cases h
  · cases h
    rfl

theorem notDroppable_of_itemText {item : Json} (h : itemText item = .error e) : e.isDroppable = false := by
  unfold itemText at h
  split at h <;> cases h
  rfl

theorem notDroppable_of_ofItems {items : List Json} (h : Value.ofItems items = .error e) : e.isDroppable = false := by
  unfold Value.ofItems at h
  split at h
  · rename_i hitems
    cases h
    obtain ⟨item, -, hitem⟩ := exists_of_collect_error hitems
    exact notDroppable_of_itemText hitem
  · cases h

theorem notDroppable_of_ofJson (h : Value.ofJson value = .error e) : e.isDroppable = false := by
  unfold Value.ofJson at h
  split at h
  · exact notDroppable_of_ofItems h
  · split at h
    · exact notDroppable_of_ofItems h
    · split at h <;> cases h
      rfl
  · cases h

theorem notDroppable_of_sortRecord (h : sortRecord fields = .error e) : e.isDroppable = false := by
  unfold sortRecord at h
  split at h
  · cases h
  · cases h
  · split at h <;> cases h
  · cases h
    rfl

theorem notDroppable_of_sortItem {item : Json} (h : sortItem item = .error e) : e.isDroppable = false := by
  unfold sortItem at h
  split at h
  · cases h
  · exact notDroppable_of_sortRecord h
  · cases h
    rfl

theorem notDroppable_of_sortItems {items : List Json} (h : sortItems items = .error e) : e.isDroppable = false := by
  unfold sortItems at h
  split at h
  · rename_i hitems
    cases h
    obtain ⟨item, -, hitem⟩ := exists_of_collect_error hitems
    exact notDroppable_of_sortItem hitem
  · cases h

theorem notDroppable_of_readSorts (h : readSorts value = .error e) : e.isDroppable = false := by
  unfold readSorts at h
  split at h
  · cases h
  · cases h
  · exact notDroppable_of_sortItems h
  · split at h
    · exact notDroppable_of_sortItems h
    · split at h
      · rename_i hrecord
        cases h
        exact notDroppable_of_sortRecord hrecord
      · cases h
  · cases h
    rfl

/-! ## Lenient readers -/

namespace Reader

variable {r : Reader} {key : String} {result : Except SearchError (Option Condition)}

theorem notDroppable_of_recordNames (h : recordNames fields = .error e) : e.isDroppable = false := by
  unfold recordNames at h
  split at h
  · cases h
  · split at h
    · rename_i hnames
      cases h
      obtain ⟨item, -, hitem⟩ := exists_of_collect_error hnames
      cases item <;> cases hitem <;> rfl
    · cases h
  · cases h
    rfl

/-- A lenient reader takes what fails on a name for nothing. -/
theorem tolerate_of_lenient (hr : r.settings.ignoreUnknown = true) (result : Except SearchError (Option Condition)) :
    r.tolerate result = if failsOnName result then .ok none else result := by
  unfold tolerate
  cases result with
  | ok found => rfl
  | error e => simp [hr, failsOnName_error]

theorem notDroppable_of_tolerate (hr : r.settings.ignoreUnknown = true) (h : r.tolerate result = .error e) :
    e.isDroppable = false := by
  rw [tolerate_of_lenient hr] at h
  split at h
  · cases h
  · rename_i hfails
    rw [h, failsOnName_error] at hfails
    simpa using hfails

theorem notDroppable_of_namedCondition (hr : r.settings.ignoreUnknown = true)
    (h : r.namedCondition key value = .error e) : e.isDroppable = false := by
  unfold namedCondition at h
  split at h
  · rename_i hvalue
    cases h
    exact notDroppable_of_ofJson hvalue
  · cases h
  · exact notDroppable_of_tolerate hr h

theorem notDroppable_of_records (hr : r.settings.ignoreUnknown = true) (h : r.records value = .error e) :
    e.isDroppable = false := by
  unfold records at h
  split at h
  · rename_i hmaps
    cases h
    exact notDroppable_of_mappings hmaps
  · split at h
    · rename_i hrecords
      cases h
      obtain ⟨fields, -, hfails⟩ := exists_of_collect_error hrecords
      exact notDroppable_of_tolerate hr hfails
    · cases h

mutual

theorem notDroppable_of_groups {r : Reader} {value : Json} {e : SearchError} (hr : r.settings.ignoreUnknown = true)
    (h : r.groups value = .error e) : e.isDroppable = false := by
  rw [groups_eq] at h
  split at h
  · rename_i hmaps
    cases h
    exact notDroppable_of_mappings hmaps
  · rename_i maps hmaps
    split at h
    · rename_i hjunctions
      cases h
      obtain ⟨m, hm, hfails⟩ := exists_of_collect_error hjunctions
      have := sizeOf_lt_of_mem_mappings hmaps hm
      exact notDroppable_of_junction hr hfails
    · cases h
termination_by 2 * sizeOf value

theorem notDroppable_of_junction {r : Reader} {fields : Keyed Json} {e : SearchError}
    (hr : r.settings.ignoreUnknown = true) (h : r.junction fields = .error e) : e.isDroppable = false := by
  rw [junction_eq] at h
  split at h
  · rename_i hentries
    cases h
    obtain ⟨⟨key, value⟩, hfield, hfails⟩ := exists_of_collect_error hentries
    have := sizeOf_lt_of_mem hfield
    exact notDroppable_of_contribution hr hfails
  · cases h
termination_by 2 * sizeOf fields

theorem notDroppable_of_contribution {r : Reader} {key : String} {value : Json} {e : SearchError}
    (hr : r.settings.ignoreUnknown = true) (h : r.contribution key value = .error e) : e.isDroppable = false := by
  rw [contribution] at h
  cases hrole : r.settings.role key <;> rw [hrole] at h <;> dsimp only at h
  case orGroups | andGroups =>
    split at h <;> cases h
    rename_i hgroups
    exact notDroppable_of_groups hr hgroups
  case records =>
    split at h <;> cases h
    rename_i hrecords
    exact notDroppable_of_records hr hrecords
  case sorts =>
    cases h
    rfl
  case condition =>
    split at h <;> cases h
    rename_i hcondition
    exact notDroppable_of_namedCondition hr hcondition
termination_by 2 * sizeOf value + 1

end

end Reader

/-! ## Lenient searches -/

namespace Search

variable {c : Catalog} {q : Search} {params : Keyed Json}

theorem notDroppable_of_addEntries (hq : q.settings.ignoreUnknown = true) (h : addEntries c q params = .error e) :
    e.isDroppable = false := by
  induction params generalizing q with
  | nil => cases h
  | cons entry rest ih =>
    obtain ⟨key, value⟩ := entry
    unfold addEntries at h
    split at h
    · split at h
      · rename_i hsorts
        cases h
        exact notDroppable_of_readSorts hsorts
      · rename_i sorts hsorts
        exact ih (q := { q with sorts := sorts }) hq h
    · split at h
      · rename_i hfails
        cases h
        exact Reader.notDroppable_of_contribution (r := q.reader c) hq hfails
      · exact ih (by rwa [settings_add]) h

theorem notDroppable_of_build {root : String} {settings : Settings} (h : settings.ignoreUnknown = true)
    (he : build c root settings params = .error e) : e.isDroppable = false := by
  unfold build at he
  split at he
  · cases he
    rfl
  · exact notDroppable_of_addEntries (by exact h) he

theorem notDroppable_of_select {s : Schema} (hq : Reachable s.catalog q) (h : q.settings.ignoreUnknown = true)
    (he : q.select s.catalog = .error e) : e.isDroppable = false := by
  obtain ⟨root, hroot⟩ := hq.root
  have hname : root.name = q.root := s.named_catalog hroot
  have hsound := hq.sound
  rw [← hname] at hroot hsound
  have hfails := evaluate_of_error (by rwa [← hname]) (.inr he)
  -- The conditions compile, and a sort that an unknown name spoils has been left out.
  obtain ⟨sort, -, -, hkept⟩ := evaluate_eq_error s.named_catalog hroot hsound hfails
  have hignored : q.options.ignoreUnknownSorts = true := h
  rwa [hignored, Bool.true_and] at hkept

end Search

end Criteria
