import Criteria.Proofs.Searches.Lists

/-!
# What operations do

* `Search.set_eq_ok`, `orSet_eq_ok` — what writing a key has done where it succeeds; `set_eq_error`, `orSet_eq_error` —
  it has done nothing where it fails.
* `Search.Step` — all that an operation can do to a search (`step_perform`).
-/

namespace Criteria

theorem Reader.named_of_isBlank {r : Reader} {key : String} {value : Value} (h : value.isBlank = true) :
    r.named key value = .ok none := by
  rw [named, if_pos h]

namespace Search

variable {c : Catalog} {r : Reader} {q after : Search} {j k : Junction} {key : String} {value : Value} {index : Nat}
  {e : SearchError}

/-! ## Writing keys -/

theorem Change.eq_of_isOk {change : Change} (h : change.2.isOk = true) : change = (change.1, .ok ()) := by
  obtain ⟨after, result⟩ := change
  cases result with
  | error e => cases h
  | ok u => rfl

theorem putCondition_of_isBlank (h : value.isBlank = true) : putCondition r j key value = .ok (j.remove key) := by
  rw [putCondition, Reader.named_of_isBlank h]

theorem putCondition_eq_ok (h : value.isBlank = false) : putCondition r j key value = .ok k ↔
    ∃ cond, r.named key value = .ok (some cond) ∧ k = j.upsert cond := by
  unfold putCondition
  cases hnamed : r.named key value with
  | error e => simp
  | ok found =>
    cases found with
    | some cond => simp [eq_comm]
    | none =>
      have hkey := Reader.map_key_named h hnamed
      cases hkey

theorem set_eq_ok : q.set c key value = (after, .ok ()) ↔ q.isAccessor c key = true ∧
    ∃ base, putCondition (q.reader c) q.base key value = .ok base ∧ after = { q with base := base } := by
  unfold set
  cases q.isAccessor c key with
  | false => simp
  | true => cases putCondition (q.reader c) q.base key value <;> simp [eq_comm]

theorem set_eq_error (h : q.set c key value = (after, .error e)) : after = q := by
  unfold set at h
  split at h
  · split at h <;> cases h
    rfl
  · cases h
    rfl

theorem orSet_eq_ok : q.orSet c index key value = (after, .ok ()) ↔ q.isAccessor c key = true ∧
    ((∃ group new, q.ors[index]? = some group ∧ putCondition (q.reader c) group key value = .ok new ∧
        after = { q with ors := q.ors.set index new }) ∨
      (index = q.ors.length ∧ ∃ new, putCondition (q.reader c) [] key value = .ok new ∧
        after = { q with ors := if new.isEmpty then q.ors else q.ors ++ [new] })) := by
  unfold orSet
  cases q.isAccessor c key with
  | false => simp
  | true =>
    cases hgroup : q.ors[index]? with
    | some group =>
      have hne : index ≠ q.ors.length := fun heq => by simp [heq] at hgroup
      cases hput : putCondition (q.reader c) group key value <;> simp [hput, hne, @eq_comm _ after]
    | none =>
      by_cases hindex : index = q.ors.length
      · cases putCondition (q.reader c) [] key value <;> simp [hindex, @eq_comm _ after]
      · simp [hindex]

theorem orSet_eq_error (h : q.orSet c index key value = (after, .error e)) : after = q := by
  unfold orSet at h
  repeat' split at h
  all_goals cases h
  all_goals rfl

/-! ## All operations -/

/-- What an operation can do to a search. -/
inductive Step (c : Catalog) (q : Search) : Operation → Search → Prop
  /-- It fails, or there is nothing to do. -/
  | keeps {op : Operation} : Step c q op q
  | set {key : String} {value : Value} {base : Junction} (h : putCondition (q.reader c) q.base key value = .ok base) :
    Step c q (.set key value) { q with base := base }
  | orSet {index : Nat} {key : String} {value : Value} {group new : Junction} (hgroup : q.ors[index]? = some group)
    (h : putCondition (q.reader c) group key value = .ok new) :
    Step c q (.orSet index key value) { q with ors := q.ors.set index new }
  | orAppend {index : Nat} {key : String} {value : Value} {new : Junction}
    (h : putCondition (q.reader c) [] key value = .ok new) (hne : new ≠ []) :
    Step c q (.orSet index key value) { q with ors := q.ors ++ [new] }
  | pushOrs {value : Json} {groups : List Junction} (h : (q.reader c).groups value = .ok groups) :
    Step c q (.pushOrs value) { q with ors := q.ors ++ groups }
  | setOrs {value : Json} {groups : List Junction} (h : (q.reader c).groups value = .ok groups) :
    Step c q (.setOrs value) { q with ors := groups }
  /-- The or-groups go, also where none can take their place. -/
  | clears {op : Operation} : Step c q op { q with ors := [] }
  | reverses {op : Operation} : Step c q op { q with ors := q.ors.reverse }
  | sorts {op : Operation} {sorts : List SortKey} : Step c q op { q with sorts := sorts }

theorem step_set (c : Catalog) (q : Search) (key : String) (value : Value) :
    Step c q (.set key value) (q.set c key value).1 := by
  cases h : q.set c key value with
  | mk after result =>
    cases result with
    | error e =>
      rw [set_eq_error h]
      exact .keeps
    | ok u =>
      obtain ⟨-, base, hput, rfl⟩ := set_eq_ok.1 h
      exact .set hput

theorem step_orSet (c : Catalog) (q : Search) (index : Nat) (key : String) (value : Value) :
    Step c q (.orSet index key value) (q.orSet c index key value).1 := by
  cases h : q.orSet c index key value with
  | mk after result =>
    cases result with
    | error e =>
      rw [orSet_eq_error h]
      exact .keeps
    | ok u =>
      obtain ⟨-, ⟨group, new, hgroup, hput, rfl⟩ | ⟨-, new, hput, rfl⟩⟩ := orSet_eq_ok.1 h
      · exact .orSet hgroup hput
      · cases new with
        | nil => exact .keeps
        | cons node rest => exact .orAppend hput (List.cons_ne_nil node rest)

theorem step_pushOrs (c : Catalog) (q : Search) (value : Json) :
    Step c q (.pushOrs value) (q.pushOrs c value).1 := by
  cases h : q.pushOrs c value with
  | mk after result =>
    cases result with
    | error e =>
      rw [(pushOrs_eq_error.1 h).2]
      exact .keeps
    | ok u =>
      obtain ⟨groups, hgroups, rfl⟩ := pushOrs_eq_ok.1 h
      exact .pushOrs hgroups

theorem step_setOrs (c : Catalog) (q : Search) (value : Json) : Step c q (.setOrs value) (q.setOrs c value).1 := by
  cases h : q.setOrs c value with
  | mk after result =>
    cases result with
    | error e =>
      rw [(setOrs_eq_error.1 h).2]
      exact .clears
    | ok u =>
      obtain ⟨groups, hgroups, rfl⟩ := setOrs_eq_ok.1 h
      exact .setOrs hgroups

theorem step_setSorts (c : Catalog) (q : Search) (value : Json) : Step c q (.setSorts value) (q.setSorts value).1 := by
  cases h : q.setSorts value with
  | mk after result =>
    cases result with
    | error e =>
      rw [(setSorts_eq_error.1 h).2]
      exact .keeps
    | ok u =>
      obtain ⟨sorts, -, rfl⟩ := setSorts_eq_ok.1 h
      exact .sorts

theorem step_perform (c : Catalog) (q : Search) (op : Operation) : Step c q op (q.perform c op) := by
  cases op with
  | set key value => exact step_set c q key value
  | orSet index key value => exact step_orSet c q index key value
  | pushOrs value => exact step_pushOrs c q value
  | setOrs value => exact step_setOrs c q value
  | setSorts value => exact step_setSorts c q value
  | clearOrs => exact .clears
  | reverseOrs => exact .reverses

/-- What operations of some kind keep of a search is kept by several of them in order. -/
theorem performAll_induction {p : Search → Prop} {ops : List Operation} (hq : p q)
    (hstep : ∀ q, ∀ op ∈ ops, p q → p (q.perform c op)) : p (q.performAll c ops) := by
  induction ops generalizing q with
  | nil => exact hq
  | cons op rest ih =>
    exact ih (hstep q op List.mem_cons_self hq) fun q op hop => hstep q op (List.mem_cons_of_mem _ hop)

end Search

end Criteria
