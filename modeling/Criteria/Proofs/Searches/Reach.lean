import Criteria.Proofs.Searches.Sound
import Criteria.Search

/-!
# The searches that can come about

* `Search.Operation`, `Search.perform` — what may be done with a search: write conditions, add, replace, clear or
  reverse or-groups, and replace sorts.
* `Search.performAll` — several operations in order; `Search.Reachable` — the searches that parameters write, and those
  after any operations on them, successful or not.
* `Reachable.made`, `Reachable.sound` — the reader of a search has made all its conditions, and they are sound.
-/

namespace Criteria.Search

variable {c : Catalog} {q : Search} {cond : Condition}

/-- All conditions of a search. -/
def leaves (q : Search) : List Condition := Junction.leaves q.base ++ q.ors.flatMap Junction.leaves

theorem mem_leaves : cond ∈ q.leaves ↔ cond ∈ Junction.leaves q.base ∨ ∃ j ∈ q.ors, cond ∈ Junction.leaves j := by
  rw [leaves, List.mem_append, List.mem_flatMap]

/-! ## Building -/

theorem mem_leaves_add {contribution : Contribution} (h : cond ∈ (q.add contribution).leaves) :
    cond ∈ q.leaves ∨ cond ∈ contribution.leaves := by
  rw [mem_leaves] at h ⊢
  unfold add at h
  split at h
  · rename_i groups
    rcases h with h | ⟨j, hj, h⟩
    · exact .inl (.inl h)
    · rcases List.mem_append.1 hj with hj | hj
      · exact .inl (.inr ⟨j, hj, h⟩)
      · exact .inr (List.mem_flatMap.2 ⟨j, hj, h⟩)
  · rcases h with h | h
    · exact (Junction.mem_leaves_add h).imp_left .inl
    · exact .inl (.inr h)

theorem root_add (q : Search) (contribution : Contribution) : (q.add contribution).root = q.root := by
  unfold add
  split <;> rfl

theorem settings_add (q : Search) (contribution : Contribution) : (q.add contribution).settings = q.settings := by
  unfold add
  split <;> rfl

theorem reader_add (q : Search) (contribution : Contribution) : (q.add contribution).reader c = q.reader c := by
  unfold reader
  rw [root_add, settings_add]

/-- The first of several entries gives sorts, under the key of sorts, or adds what it contributes. -/
theorem addEntries_cons_eq_ok {q' : Search} {key : String} {value : Json} {rest : Keyed Json}
    (h : addEntries c q ((key, value) :: rest) = .ok q') :
    (key = q.settings.sortKey ∧ ∃ sorts, addEntries c { q with sorts := sorts } rest = .ok q') ∨
      (key ≠ q.settings.sortKey ∧
        ∃ x, (q.reader c).contribution key value = .ok x ∧ addEntries c (q.add x) rest = .ok q') := by
  unfold addEntries at h
  split at h
  · rename_i hkey
    split at h
    · cases h
    · exact .inl ⟨hkey, _, h⟩
  · rename_i hkey
    split at h
    · cases h
    · rename_i x hx
      exact .inr ⟨hkey, x, hx, h⟩

theorem addEntries_append (c : Catalog) (q : Search) (entries more : Keyed Json) :
    addEntries c q (entries ++ more) = (addEntries c q entries).bind fun q => addEntries c q more := by
  induction entries generalizing q with
  | nil => rfl
  | cons entry rest ih =>
    obtain ⟨key, value⟩ := entry
    rw [List.cons_append, addEntries, addEntries]
    split
    · cases readSorts value with
      | error e => rfl
      | ok sorts => exact ih _
    · cases (q.reader c).contribution key value with
      | error e => rfl
      | ok x => exact ih _

/-- Adding entries keeps the reader, and adds conditions that it makes. -/
theorem addEntries_eq_ok {q' : Search} {params : Keyed Json} (h : addEntries c q params = .ok q') :
    q'.reader c = q.reader c ∧ ∀ cond ∈ q'.leaves, cond ∈ q.leaves ∨ (q.reader c).Makes cond := by
  induction params generalizing q with
  | nil =>
    cases h
    exact ⟨rfl, fun _ => .inl⟩
  | cons entry rest ih =>
    obtain ⟨key, value⟩ := entry
    rcases addEntries_cons_eq_ok h with ⟨-, sorts, hrest⟩ | ⟨-, contribution, hmade, hrest⟩
    · exact ih (q := { q with sorts := sorts }) hrest
    · obtain ⟨hreader, hleaves⟩ := ih hrest
      rw [reader_add] at hreader hleaves
      refine ⟨hreader, ?_⟩
      intro cond hcond
      rcases hleaves cond hcond with hcond | hcond
      · exact (mem_leaves_add hcond).imp_right (Reader.makes_of_contribution hmade cond)
      · exact .inr hcond

theorem build_eq_ok {root : String} {settings : Settings} {params : Keyed Json}
    (h : build c root settings params = .ok q) :
    q.root = root ∧ (∃ e, c.entity? q.root = some e) ∧ ∀ cond ∈ q.leaves, (q.reader c).Makes cond := by
  unfold build at h
  split at h
  · cases h
  · rename_i e he
    obtain ⟨hreader, hleaves⟩ := addEntries_eq_ok h
    have hroot : q.root = root := congrArg Reader.root hreader
    refine ⟨hroot, ⟨e, by rw [hroot, he]⟩, ?_⟩
    intro cond hcond
    rw [hreader]
    rcases hleaves cond hcond with hcond | hcond
    · cases hcond
    · exact hcond

theorem settings_of_build {root : String} {settings : Settings} {params : Keyed Json}
    (h : build c root settings params = .ok q) : q.settings = settings := by
  unfold build at h
  split at h
  · cases h
  · exact congrArg Reader.settings (addEntries_eq_ok h).1

/-! ## Operations -/

/-- What may be done with a search. -/
inductive Operation where
  | set (key : String) (value : Value)
  | orSet (index : Nat) (key : String) (value : Value)
  | pushOrs (value : Json)
  | setOrs (value : Json)
  | setSorts (value : Json)
  | clearOrs
  | reverseOrs

/-- The search after an operation, whether or not it succeeds. -/
def perform (c : Catalog) (q : Search) : Operation → Search
  | .set key value => (q.set c key value).1
  | .orSet index key value => (q.orSet c index key value).1
  | .pushOrs value => (q.pushOrs c value).1
  | .setOrs value => (q.setOrs c value).1
  | .setSorts value => (q.setSorts value).1
  | .clearOrs => q.clearOrs
  | .reverseOrs => q.reverseOrs

/-- The search after several operations in order. -/
def performAll (c : Catalog) (q : Search) (ops : List Operation) : Search := ops.foldl (perform c) q

theorem mem_leaves_putCondition {r : Reader} {j j' : Junction} {key : String} {value : Value}
    (h : putCondition r j key value = .ok j') (hc : cond ∈ Junction.leaves j') :
    cond ∈ Junction.leaves j ∨ r.Makes cond := by
  unfold putCondition at h
  split at h
  · cases h
  · rename_i new hnew
    cases h
    rcases Junction.mem_leaves_upsert hc with rfl | hc
    · exact .inr (.named hnew)
    · exact .inl hc
  · cases h
    exact .inl (Junction.mem_leaves_remove hc)

theorem mem_leaves_set {key : String} {value : Value} (h : cond ∈ (q.set c key value).1.leaves) :
    cond ∈ q.leaves ∨ (q.reader c).Makes cond := by
  unfold set at h
  split at h
  · split at h
    · exact .inl h
    · rename_i base hbase
      rw [mem_leaves] at h ⊢
      rcases h with h | h
      · exact (mem_leaves_putCondition hbase h).imp_left .inl
      · exact .inl (.inr h)
  · exact .inl h

theorem mem_leaves_orSet {index : Nat} {key : String} {value : Value}
    (h : cond ∈ (q.orSet c index key value).1.leaves) : cond ∈ q.leaves ∨ (q.reader c).Makes cond := by
  unfold orSet at h
  split at h
  · split at h
    · rename_i group hgroup
      split at h
      · exact .inl h
      · rename_i new hnew
        rw [mem_leaves] at h ⊢
        rcases h with h | ⟨j, hj, h⟩
        · exact .inl (.inl h)
        · rcases List.mem_or_eq_of_mem_set hj with hj | rfl
          · exact .inl (.inr ⟨j, hj, h⟩)
          · refine (mem_leaves_putCondition hnew h).imp_left ?_
            exact fun h => .inr ⟨group, List.mem_of_getElem? hgroup, h⟩
    · split at h
      · split at h
        · exact .inl h
        · rename_i new hnew
          rw [mem_leaves] at h ⊢
          rcases h with h | ⟨j, hj, h⟩
          · exact .inl (.inl h)
          · dsimp only at hj
            split at hj
            · exact .inl (.inr ⟨j, hj, h⟩)
            · rcases List.mem_append.1 hj with hj | hj
              · exact .inl (.inr ⟨j, hj, h⟩)
              · obtain rfl := List.mem_singleton.1 hj
                exact (mem_leaves_putCondition hnew h).imp_left nofun
      · exact .inl h
  · exact .inl h

theorem mem_leaves_pushOrs {value : Json} (h : cond ∈ (q.pushOrs c value).1.leaves) :
    cond ∈ q.leaves ∨ (q.reader c).Makes cond := by
  unfold pushOrs at h
  split at h
  · exact .inl h
  · rename_i groups hgroups
    rw [mem_leaves] at h ⊢
    rcases h with h | ⟨j, hj, h⟩
    · exact .inl (.inl h)
    · rcases List.mem_append.1 hj with hj | hj
      · exact .inl (.inr ⟨j, hj, h⟩)
      · exact .inr (Reader.makes_of_groups hgroups j hj cond h)

theorem mem_leaves_clearOrs (h : cond ∈ q.clearOrs.leaves) : cond ∈ q.leaves := by
  rw [mem_leaves] at h ⊢
  rcases h with h | ⟨j, hj, h⟩
  · exact .inl h
  · cases hj

theorem mem_leaves_reverseOrs (h : cond ∈ q.reverseOrs.leaves) : cond ∈ q.leaves := by
  rw [mem_leaves] at h ⊢
  rcases h with h | ⟨j, hj, h⟩
  · exact .inl h
  · exact .inr ⟨j, List.mem_reverse.1 hj, h⟩

/-- An operation keeps the reader. -/
theorem reader_perform (q : Search) (op : Operation) : (q.perform c op).reader c = q.reader c := by
  cases op with
  | set key value =>
    show (q.set c key value).1.reader c = _
    unfold set
    repeat' split
    all_goals rfl
  | orSet index key value =>
    show (q.orSet c index key value).1.reader c = _
    unfold orSet
    repeat' split
    all_goals rfl
  | pushOrs value =>
    show (q.pushOrs c value).1.reader c = _
    unfold pushOrs
    split <;> rfl
  | setOrs value =>
    show (q.setOrs c value).1.reader c = _
    unfold setOrs pushOrs
    split <;> rfl
  | setSorts value =>
    show (q.setSorts value).1.reader c = _
    unfold setSorts
    split <;> rfl
  | clearOrs => rfl
  | reverseOrs => rfl

theorem reader_performAll (q : Search) (ops : List Operation) : (q.performAll c ops).reader c = q.reader c := by
  induction ops generalizing q with
  | nil => rfl
  | cons op rest ih => exact (ih (q.perform c op)).trans (reader_perform q op)

/-- An operation brings in no conditions but those that the reader makes. -/
theorem mem_leaves_perform {op : Operation} (h : cond ∈ (q.perform c op).leaves) :
    cond ∈ q.leaves ∨ (q.reader c).Makes cond := by
  cases op with
  | set key value => exact mem_leaves_set h
  | orSet index key value => exact mem_leaves_orSet h
  | pushOrs value => exact mem_leaves_pushOrs h
  | setOrs value => exact (mem_leaves_pushOrs h).imp_left mem_leaves_clearOrs
  | setSorts value =>
    unfold perform setSorts at h
    dsimp only at h
    split at h <;> exact .inl h
  | clearOrs => exact .inl (mem_leaves_clearOrs h)
  | reverseOrs => exact .inl (mem_leaves_reverseOrs h)

/-! ## Reachable searches -/

/-- The searches that parameters write, and those that operations lead to. -/
inductive Reachable (c : Catalog) : Search → Prop
  | build {root : String} {settings : Settings} {params : Keyed Json} {q : Search}
      (h : Search.build c root settings params = .ok q) : Reachable c q
  | perform {q : Search} (h : Reachable c q) (op : Operation) : Reachable c (q.perform c op)

theorem eq_ok_get {result : Except SearchError Search} (h : result.toOption.isSome = true) :
    result = .ok (result.toOption.get h) :=
  eq_ok_of_toOption (Option.some_get h).symm

/-- The search that parameters write, where they do. -/
theorem Reachable.of_isSome {root : String} {settings : Settings} {params : Keyed Json}
    (h : (Search.build c root settings params).toOption.isSome = true) :
    Reachable c ((Search.build c root settings params).toOption.get h) :=
  .build (eq_ok_get h)

theorem Reachable.performAll (h : Reachable c q) (ops : List Operation) : Reachable c (q.performAll c ops) := by
  induction ops generalizing q with
  | nil => exact h
  | cons op rest ih => exact ih (h.perform op)

theorem Reachable.root (h : Reachable c q) : ∃ e, c.entity? q.root = some e := by
  induction h with
  | build h => exact (build_eq_ok h).2.1
  | @perform q _ op ih =>
    have hroot : (q.perform c op).root = q.root := congrArg Reader.root (reader_perform q op)
    rwa [hroot]

/-- The reader of a search has made all its conditions. -/
theorem Reachable.made (h : Reachable c q) : ∀ cond ∈ q.leaves, (q.reader c).Makes cond := by
  induction h with
  | build h => exact (build_eq_ok h).2.2
  | perform _ op ih =>
    intro cond hcond
    rw [reader_perform]
    rcases mem_leaves_perform hcond with hcond | hcond
    · exact ih cond hcond
    · exact hcond

/-- All conditions of a search are sound, whatever has been done with it. -/
theorem Reachable.sound (h : Reachable c q) : ∀ cond ∈ q.leaves, cond.Sound c q.root :=
  fun cond hcond => (h.made cond hcond).sound

end Criteria.Search
