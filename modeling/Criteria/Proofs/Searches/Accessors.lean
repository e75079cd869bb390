import Criteria.Proofs.Searches.Steps

/-!
# Single conditions by key

* `Junction.Puts` — a condition in the place of the first one of its key, or behind all nodes (`puts_upsert`).
* `Value.IsNormal`, `Reader.IsWritten` — a value in the form in which the condition of a key holds it, and the condition
  that a key and a value write.
* `Search.writes_one_condition` — a value that is not blank can be read under its key, and nothing else has changed.
-/

namespace Criteria

/-! ## One place in a junction -/

namespace Junction

/-- A condition takes the place of the first one of its key, or goes behind all nodes if there is none. -/
inductive Puts (cond : Condition) : Junction → Junction → Prop
  | replace {before after : Junction} {old : Condition} (hkey : old.key = cond.key) (hfirst : cond.key ∉ keys before) :
    Puts cond (before ++ .condition old :: after) (before ++ .condition cond :: after)
  | append {j : Junction} (hnone : cond.key ∉ keys j) : Puts cond j (j ++ [.condition cond])

variable {cond : Condition} {j k : Junction} {key : String}

@[simp] theorem keys_nil : keys [] = [] := rfl

@[simp] theorem keys_cons_group (m : Combinator) (members : List Node) (j : Junction) :
    keys (.group m members :: j) = keys j := rfl

@[simp] theorem keys_cons_condition (cond : Condition) (j : Junction) :
    keys (.condition cond :: j) = cond.key :: keys j := rfl

theorem Puts.cons_group (h : Puts cond j k) (m : Combinator) (members : List Node) :
    Puts cond (.group m members :: j) (.group m members :: k) := by
  cases h with
  | @replace before _ _ hkey hfirst => exact @Puts.replace cond (.group m members :: before) _ _ hkey hfirst
  | append hnone => exact .append hnone

theorem Puts.cons_condition (h : Puts cond j k) {other : Condition} (hne : other.key ≠ cond.key) :
    Puts cond (.condition other :: j) (.condition other :: k) := by
  have hnot {i : Junction} (hi : cond.key ∉ keys i) : cond.key ∉ keys (.condition other :: i) := by
    simp [hi, hne.symm]
  cases h with
  | @replace before _ _ hkey hfirst => exact @Puts.replace cond (.condition other :: before) _ _ hkey (hnot hfirst)
  | append hnone => exact .append (hnot hnone)

theorem puts_upsert (cond : Condition) (j : Junction) : Puts cond j (j.upsert cond) := by
  induction j with
  | nil => exact .append (by simp)
  | cons node rest ih =>
    cases node with
    | group m members => exact ih.cons_group m members
    | condition old =>
      rw [upsert]
      split
      · rename_i hkey
        exact @Puts.replace cond [] _ _ hkey (by simp)
      · rename_i hne
        exact ih.cons_condition hne

theorem get?_upsert_self (cond : Condition) (j : Junction) : get? cond.key (j.upsert cond) = some cond.value := by
  rw [get?, condition?_upsert, if_pos rfl]
  rfl

theorem get?_upsert_of_ne (h : key ≠ cond.key) (j : Junction) : get? key (j.upsert cond) = get? key j := by
  rw [get?, condition?_upsert, if_neg h.symm]
  rfl

end Junction

/-! ## Values in normal form -/

namespace Value

/-- Whether a value is a list. -/
def isList : Value → Bool
  | scalar _ => false
  | list _ => true

/-- The second value is the first one as the condition of a key holds it: its texts are those that are not blank, and it
is a list just if the predicate takes one or the key asks for several values. -/
structure IsNormal (k : ConditionKey) (v w : Value) : Prop where
  texts : w.texts = v.texts.filter fun s => !Text.isBlank s
  isList : w.isList = (decide (k.predicate.arity = .list) || k.several)

variable {v w : Value} {p : Predicate} {several : Bool}

theorem isList_of_fit (hs : several = true → p.arity = .single) (h : v.fit p several = .ok w) :
    w.isList = (decide (p.arity = .list) || several) := by
  cases v with
  | scalar s =>
    simp only [fit] at h
    split at h <;> rename_i hlist <;> cases h
    · rcases hlist with hlist | ⟨-, hlist⟩ <;> simp [isList, hlist]
    · cases several <;> simp_all [isList]
  | list ss =>
    simp only [fit] at h
    split at h
    · rename_i hlist
      cases h
      rcases hlist with hlist | hlist <;> simp [isList, hlist]
    · rename_i hlist
      split at h <;> cases h
      cases several <;> simp_all [isList]

end Value

namespace Reader

variable {r : Reader} {key : String} {value : Value} {cond : Condition}

/-- The condition that a key and a value write: it stands under the key and holds the value in normal form. -/
structure IsWritten (r : Reader) (key : String) (value : Value) (cond : Condition) : Prop where
  made : r.named key value = .ok (some cond)
  key_eq : cond.key = key
  normal : ∃ k, ConditionKey.parse? key = some k ∧ value.IsNormal k cond.value

theorem isWritten_of_named (h : r.named key value = .ok (some cond)) : r.IsWritten key value cond := by
  rcases named_eq_ok h with ⟨-, hnone⟩ | ⟨k, paths, hblank, hk, -, hmade⟩
  · cases hnone
  · obtain ⟨⟨hkey, -⟩, -, hfit, -⟩ := Condition.make_eq_some hmade
    refine ⟨h, hkey, k, hk, ?_, ?_⟩
    · rw [Value.texts_of_fit hfit, Value.texts_withoutBlanks hblank]
    · apply Value.isList_of_fit ?_ hfit
      intro hs
      exact Predicate.takesSeveral_iff.1 (ConditionKey.takesSeveral_of_several hk hs)

end Reader

namespace Search

variable {c : Catalog} {r : Reader} {q after : Search} {j k : Junction} {key : String} {value : Value} {index : Nat}
  {e : SearchError}

/-! ## Reading -/

theorem isAccessor_congr (h : after.root = q.root) (key : String) : after.isAccessor c key = q.isAccessor c key := by
  unfold isAccessor
  rw [h]

theorem get_of_isAccessor (h : q.isAccessor c key = true) : q.get c key = .ok (q.base.get? key) := by
  rw [get, if_pos h]

theorem orGet_of_isAccessor (h : q.isAccessor c key = true) :
    q.orGet c index key = .ok (((q.ors[index]?).getD []).get? key) := by
  rw [orGet, if_pos h]
  cases q.ors[index]? <;> rfl

theorem orGet_congr (hroot : after.root = q.root)
    (h : ((after.ors[index]?).getD []).get? key = ((q.ors[index]?).getD []).get? key) :
    after.orGet c index key = q.orGet c index key := by
  by_cases hkey : q.isAccessor c key = true
  · rw [orGet_of_isAccessor hkey, orGet_of_isAccessor (by rwa [isAccessor_congr hroot]), h]
  · rw [orGet, orGet, isAccessor_congr hroot, if_neg hkey, if_neg hkey]

/-! ## Both -/

/-- A value that is not blank goes under its key and nowhere else. In the base, or in an or-group, its condition takes
the place of the first one of the key or goes behind all nodes; the position after the last group makes a group of this
one condition. The key then reads the value in normal form, and every other key what it read before. What fails leaves
the search as it was, and groups that are added go behind the others. -/
theorem writes_one_condition (c : Catalog) (q after : Search) (key : String) (value : Value) :
    (value.isBlank = false → q.set c key value = (after, .ok ()) →
      ∃ cond base, (q.reader c).IsWritten key value cond ∧ Junction.Puts cond q.base base ∧
        after = { q with base := base } ∧ after.get c key = .ok (some cond.value) ∧
        ∀ other, other ≠ key → after.get c other = q.get c other) ∧
      (∀ index, value.isBlank = false → q.orSet c index key value = (after, .ok ()) →
        ∃ cond, (q.reader c).IsWritten key value cond ∧
          ((∃ group new, q.ors[index]? = some group ∧ Junction.Puts cond group new ∧
              after = { q with ors := q.ors.set index new }) ∨
            (index = q.ors.length ∧ after = { q with ors := q.ors ++ [[.condition cond]] })) ∧
          after.orGet c index key = .ok (some cond.value) ∧
          ∀ other, other ≠ key → after.orGet c index other = q.orGet c index other) ∧
      (∀ groups, q.pushOrs c groups = (after, .ok ()) →
        ∃ more, (q.reader c).groups groups = .ok more ∧ after = { q with ors := q.ors ++ more }) ∧
      ∀ e, (q.set c key value = (after, .error e) ∨ (∃ index, q.orSet c index key value = (after, .error e)) ∨
        ∃ groups, q.pushOrs c groups = (after, .error e)) → after = q := by
  refine ⟨?_, ?_, fun groups => pushOrs_eq_ok.1, ?_⟩
  · intro hvalue h
    obtain ⟨hkey, base, hput, rfl⟩ := set_eq_ok.1 h
    obtain ⟨cond, hmade, rfl⟩ := (putCondition_eq_ok hvalue).1 hput
    have hwritten := Reader.isWritten_of_named hmade
    refine ⟨cond, _, hwritten, Junction.puts_upsert cond q.base, rfl, ?_, ?_⟩
    · obtain rfl := hwritten.key_eq
      rw [get_of_isAccessor (by rwa [isAccessor_congr rfl]), Junction.get?_upsert_self]
    · intro other hother
      rw [← hwritten.key_eq] at hother
      rw [get, get, Junction.get?_upsert_of_ne hother]
      rfl
  · intro index hvalue h
    obtain ⟨hkey, hcases⟩ := orSet_eq_ok.1 h
    -- Whether the group is there or is made, it is the one at the position with the condition put into it.
    suffices hgroup : ∃ cond, (q.reader c).IsWritten key value cond ∧ after.root = q.root ∧
        (after.ors[index]?).getD [] = ((q.ors[index]?).getD []).upsert cond ∧
        ((∃ group new, q.ors[index]? = some group ∧ Junction.Puts cond group new ∧
            after = { q with ors := q.ors.set index new }) ∨
          (index = q.ors.length ∧ after = { q with ors := q.ors ++ [[.condition cond]] })) by
      obtain ⟨cond, hwritten, hroot, hupsert, hplace⟩ := hgroup
      refine ⟨cond, hwritten, hplace, ?_, ?_⟩
      · obtain rfl := hwritten.key_eq
        rw [orGet_of_isAccessor (by rwa [isAccessor_congr hroot]), hupsert, Junction.get?_upsert_self]
      · intro other hother
        rw [← hwritten.key_eq] at hother
        apply orGet_congr hroot
        rw [hupsert, Junction.get?_upsert_of_ne hother]
    rcases hcases with ⟨group, new, hgroup, hput, rfl⟩ | ⟨rfl, new, hput, rfl⟩ <;>
      obtain ⟨cond, hmade, rfl⟩ := (putCondition_eq_ok hvalue).1 hput
    · have hlt : index < q.ors.length := (List.getElem?_eq_some_iff.1 hgroup).1
      refine ⟨cond, Reader.isWritten_of_named hmade, rfl, ?_, .inl ⟨group, _, hgroup, ?_, rfl⟩⟩
      · rw [List.getElem?_set_self hlt, hgroup]
        rfl
      · exact Junction.puts_upsert cond group
    · refine ⟨cond, Reader.isWritten_of_named hmade, rfl, ?_, .inr ⟨rfl, ?_⟩⟩
      · simp [Junction.upsert]
      · simp [Junction.upsert]
  · rintro e (h | ⟨index, h⟩ | ⟨groups, h⟩)
    · exact set_eq_error h
    · exact orSet_eq_error h
    · exact (pushOrs_eq_error.1 h).2

/-- The key of names in the search of the family, other names for it, and the search with them. -/
def namesKey : String := "children_name_or_name_eq_any"

def otherNames : Value := .list ["Grover", " ", "Bert"]

def renamed : Search := (familySearch.set family.catalog namesKey otherNames).1

/-- The search of the family with one more group. -/
def regrouped : Search := (familySearch.orSet family.catalog 1 "name_in" (.scalar "Ernie")).1

theorem writes_one_condition_family :
    (∃ cond base, familySearch.set family.catalog namesKey otherNames = (renamed, .ok ()) ∧
      Junction.Puts cond familySearch.base base ∧ renamed = { familySearch with base := base } ∧
      renamed.get family.catalog namesKey = .ok (some cond.value) ∧ cond.value.texts = ["Grover", "Bert"]) ∧
    (∃ cond, familySearch.orSet family.catalog 1 "name_in" (.scalar "Ernie") = (regrouped, .ok ()) ∧
      regrouped = { familySearch with ors := familySearch.ors ++ [[.condition cond]] } ∧
      regrouped.orGet family.catalog 1 "name_in" = .ok (some cond.value) ∧ cond.value.isList = true) ∧
    ∃ e, familySearch.pushOrs family.catalog halfGroups = (familySearch, .error e) := by
  refine ⟨?_, ?_, ?_⟩
  · have hset : familySearch.set family.catalog namesKey otherNames = (renamed, .ok ()) :=
      Change.eq_of_isOk (by decide +kernel)
    obtain ⟨cond, base, hwritten, hputs, hafter, hget, -⟩ :=
      (writes_one_condition family.catalog familySearch renamed namesKey otherNames).1 (by decide) hset
    obtain ⟨k, -, hnormal⟩ := hwritten.normal
    exact ⟨cond, base, hset, hputs, hafter, hget, hnormal.texts.trans (by decide)⟩
  · have hset : familySearch.orSet family.catalog 1 "name_in" (.scalar "Ernie") = (regrouped, .ok ()) :=
      Change.eq_of_isOk (by decide +kernel)
    obtain ⟨cond, hwritten, hplace, hget, -⟩ :=
      (writes_one_condition family.catalog familySearch regrouped "name_in" (.scalar "Ernie")).2.1 1 (by decide) hset
    obtain ⟨k, hk, hnormal⟩ := hwritten.normal
    have hlist : (ConditionKey.parse? "name_in").map (fun k => k.predicate.arity) = some .list := by decide +kernel
    rw [hk, Option.map_some, Option.some.injEq] at hlist
    have hone : familySearch.ors[1]?.isNone = true := by decide +kernel
    refine ⟨cond, hset, ?_, hget, by simp [hnormal.isList, hlist]⟩
    rcases hplace with ⟨group, new, hgroup, -⟩ | ⟨-, hafter⟩
    · rw [hgroup] at hone
      cases hone
    · exact hafter
  · have hfails : (familySearch.pushOrs family.catalog halfGroups).2.isOk = false := by decide +kernel
    cases hpush : familySearch.pushOrs family.catalog halfGroups with
    | mk after result =>
      rw [hpush] at hfails
      cases result with
      | ok u => cases hfails
      | error e =>
        have hsame := (writes_one_condition family.catalog familySearch after namesKey otherNames).2.2.2 e
          (.inr (.inr ⟨halfGroups, hpush⟩))
        exact ⟨e, by rw [hsame]⟩

end Search

end Criteria
