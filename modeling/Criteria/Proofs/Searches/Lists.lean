import Criteria.Proofs.Params.Groups
import Criteria.Proofs.Searches.Meaning

/-!
# The lists of a search

* `Search.pushOrs_eq_ok`, `setOrs_eq_ok`, `setSorts_eq_ok` — a list that a value writes comes in as a whole.
* `Search.pushOrs_eq_error`, `setSorts_eq_error` — a value that writes none leaves the search alone.
* `Search.setOrs_eq_error` — but the or-groups go first: then none are left, and more is found than before.
-/

namespace Criteria

variable {c : Catalog} {value : Json}

namespace Search

variable {q after : Search} {e : SearchError}

/-! ## Or-groups -/

theorem pushOrs_eq_ok : q.pushOrs c value = (after, .ok ()) ↔
    ∃ groups, (q.reader c).groups value = .ok groups ∧ after = { q with ors := q.ors ++ groups } := by
  unfold pushOrs
  cases (q.reader c).groups value with
  | error e => simp
  | ok groups => simp [eq_comm]

theorem pushOrs_eq_error : q.pushOrs c value = (after, .error e) ↔
    (q.reader c).groups value = .error e ∧ after = q := by
  unfold pushOrs
  cases (q.reader c).groups value with
  | error e' => simp [eq_comm, and_comm]
  | ok groups => simp

theorem setOrs_eq_ok : q.setOrs c value = (after, .ok ()) ↔
    ∃ groups, (q.reader c).groups value = .ok groups ∧ after = { q with ors := groups } := pushOrs_eq_ok

theorem setOrs_eq_error : q.setOrs c value = (after, .error e) ↔
    (q.reader c).groups value = .error e ∧ after = q.clearOrs := pushOrs_eq_error

theorem clearOrs_eq_iff : q.clearOrs = q ↔ q.ors = [] := by
  constructor
  · intro h
    rw [← h]
    rfl
  · intro h
    obtain ⟨root, settings, base, ors, sorts⟩ := q
    show (⟨root, settings, base, [], sorts⟩ : Search) = ⟨root, settings, base, ors, sorts⟩
    rw [show ors = [] from h]

/-- Without or-groups only the base has to hold. -/
theorem holds_clearOrs (ν : Condition → Bool) (q : Search) : q.clearOrs.holds ν = q.base.all (Node.holds ν) := by
  show (q.base.all (Node.holds ν) && true) = _
  rw [Bool.and_true]

theorem holds_clearOrs_of_holds {ν : Condition → Bool} (h : q.holds ν = true) : q.clearOrs.holds ν = true := by
  rw [holds_clearOrs]
  exact (Bool.and_eq_true_iff.1 h).1

/-! ## Sorts -/

theorem setSorts_eq_ok : q.setSorts value = (after, .ok ()) ↔
    ∃ sorts, readSorts value = .ok sorts ∧ after = { q with sorts := sorts } := by
  unfold setSorts
  cases readSorts value with
  | error e => simp
  | ok sorts => simp [eq_comm]

theorem setSorts_eq_error : q.setSorts value = (after, .error e) ↔ readSorts value = .error e ∧ after = q := by
  unfold setSorts
  cases readSorts value with
  | error e' => simp [eq_comm, and_comm]
  | ok sorts => simp

/-! ## Both -/

/-- A value replaces the or-groups just if it holds mappings without a fault at any depth, and they are then the junctions
of these mappings, whatever they were. Where there is a fault, the or-groups are gone: that is a change unless there were
none, and whatever was found is found still. A value replaces the sorts or leaves the search as it was. -/
theorem setOrs_replaces_or_clears (c : Catalog) (q after : Search) (value : Json) :
    ((q.setOrs c value).2 = .ok () ↔
      ∃ maps, mappings value = .ok maps ∧ ∀ m ∈ maps, (q.reader c).AllFaultless m) ∧
      (q.setOrs c value = (after, .ok ()) ↔ ∃ (maps : List (Keyed Json)) (junctions : List Junction),
        mappings value = .ok maps ∧ maps.map (q.reader c).junction = junctions.map .ok ∧
          after = { q with ors := junctions.filter fun j => !j.isEmpty }) ∧
      (∀ e, q.setOrs c value = (after, .error e) → after = { q with ors := [] } ∧ (after = q ↔ q.ors = []) ∧
        ∀ ν, q.holds ν = true → after.holds ν = true) ∧
      (q.setSorts value = (after, .ok ()) ↔ ∃ sorts, readSorts value = .ok sorts ∧ after = { q with sorts := sorts }) ∧
      ∀ e, q.setSorts value = (after, .error e) → after = q := by
  refine ⟨?_, ?_, ?_, setSorts_eq_ok, ?_⟩
  · rw [← Reader.groups_isOk_iff]
    constructor
    · intro h
      obtain ⟨groups, hgroups, -⟩ := setOrs_eq_ok.1 (Prod.ext rfl h : q.setOrs c value = (_, .ok ()))
      exact ⟨groups, hgroups⟩
    · rintro ⟨groups, hgroups⟩
      rw [setOrs_eq_ok.2 ⟨groups, hgroups, rfl⟩]
  · rw [setOrs_eq_ok]
    constructor
    · rintro ⟨groups, hgroups, rfl⟩
      obtain ⟨maps, junctions, hmaps, hjunctions, rfl⟩ := Reader.groups_eq_ok.1 hgroups
      exact ⟨maps, junctions, hmaps, collect_eq_ok.1 hjunctions, rfl⟩
    · rintro ⟨maps, junctions, hmaps, hjunctions, rfl⟩
      exact ⟨_, Reader.groups_eq_ok.2 ⟨maps, junctions, hmaps, collect_eq_ok.2 hjunctions, rfl⟩, rfl⟩
  · intro e h
    obtain ⟨-, rfl⟩ := setOrs_eq_error.1 h
    refine ⟨rfl, clearOrs_eq_iff, ?_⟩
    intro ν hν
    exact holds_clearOrs_of_holds hν
  · intro e h
    exact (setSorts_eq_error.1 h).2

/-- A list of groups of which the second one fails. -/
def halfGroups : Json :=
  .array [.object [("name_eq", .string "Bert")], .object [("name_eq", .string "Bert"), ("shoe_eq", .string "x")]]

/-- The or-groups do not survive a value that writes none. -/
theorem not_setOrs_unchanged : ¬ ∀ (s : Schema) (q after : Search) (value : Json) (e : SearchError),
    Reachable s.catalog q → q.setOrs s.catalog value = (after, .error e) →
      after.base = q.base ∧ after.ors = q.ors ∧ after.sorts = q.sorts := by
  intro h
  have hfails : (familySearch.setOrs family.catalog halfGroups).2.isOk = false := by decide +kernel
  have hlost : (familySearch.setOrs family.catalog halfGroups).1.ors.length = 0 ∧ familySearch.ors.length = 1 := by
    decide +kernel
  cases hset : familySearch.setOrs family.catalog halfGroups with
  | mk after result =>
    rw [hset] at hfails hlost
    cases result with
    | ok u => cases hfails
    | error e =>
      have hsame := (h family familySearch after halfGroups e reachable_familySearch hset).2.1
      rw [hsame] at hlost
      omega

end Search

end Criteria
