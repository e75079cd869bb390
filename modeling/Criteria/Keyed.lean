/-!
# Keyed lists

Values under names, or under other keys, in a fixed order, as in a mapping that remembers how it was written.

* `Keyed.get?` reads the value of a name.
* `Keyed.put` gives a name its last value at its first place.
* `Keyed.ofList` reads a list of pairs that way, from left to right.
-/

namespace Criteria

/-- Values under keys in order; a key is a name, unless another type is given. -/
abbrev Keyed (α : Type) (κ : Type := String) := List (κ × α)

namespace Keyed

variable {α κ : Type} [DecidableEq κ]

/-- The value of the first pair of this name. -/
def get? (name : κ) : Keyed α κ → Option α
  | [] => none
  | (key, value) :: rest => if key = name then some value else get? name rest

/-- Replaces the value where the name stands already; a new name goes to the end. -/
def put (name : κ) (value : α) : Keyed α κ → Keyed α κ
  | [] => [(name, value)]
  | (key, old) :: rest => if key = name then (key, value) :: rest else (key, old) :: put name value rest

/-- A repeated name keeps its first place and takes its last value. -/
def ofList (pairs : List (κ × α)) : Keyed α κ :=
  pairs.foldl (fun known pair => put pair.1 pair.2 known) []

/-- The names in order. -/
def names (pairs : Keyed α κ) : List κ := pairs.map Prod.fst

/-- The values in order. -/
def values (pairs : Keyed α κ) : List α := pairs.map Prod.snd

@[simp] theorem get?_nil (name : κ) : get? name ([] : Keyed α κ) = none := rfl

theorem get?_put (name other : κ) (value : α) (pairs : Keyed α κ) :
    get? other (put name value pairs) = if name = other then some value else get? other pairs := by
  induction pairs with
  | nil => simp [put, get?]
  | cons pair rest ih =>
    obtain ⟨key, old⟩ := pair
    by_cases hk : key = name
    · subst hk
      by_cases ho : key = other <;> simp [put, get?, ho]
    · by_cases ho : key = other
      · subst ho
        simp [put, get?, hk, Ne.symm hk]
      · simp [put, get?, hk, ho, ih]

theorem mem_put {name : κ} {value : α} {pairs : Keyed α κ} {pair : κ × α} (h : pair ∈ put name value pairs) :
    pair = (name, value) ∨ pair ∈ pairs := by
  induction pairs with
  | nil => simpa [put] using h
  | cons first rest ih =>
    obtain ⟨key, old⟩ := first
    by_cases hk : key = name
    · simp only [put, hk, if_true, List.mem_cons] at h
      rcases h with h | h
      · exact .inl h
      · exact .inr (List.mem_cons_of_mem _ h)
    · simp only [put, hk, if_false, List.mem_cons] at h
      rcases h with rfl | h
      · exact .inr List.mem_cons_self
      · exact (ih h).imp_right (List.mem_cons_of_mem _)

theorem mem_of_get? {name : κ} {value : α} {pairs : Keyed α κ} (h : get? name pairs = some value) :
    (name, value) ∈ pairs := by
  induction pairs with
  | nil => simp at h
  | cons first rest ih =>
    obtain ⟨key, old⟩ := first
    by_cases hk : key = name
    · simp only [get?, hk, if_true, Option.some.injEq] at h
      simp [hk, h]
    · simp only [get?, hk, if_false] at h
      exact List.mem_cons_of_mem _ (ih h)

theorem get?_of_mem {name : κ} {value : α} {pairs : Keyed α κ} (hn : pairs.names.Nodup) (h : (name, value) ∈ pairs) :
    get? name pairs = some value := by
  induction pairs with
  | nil => simp at h
  | cons first rest ih =>
    obtain ⟨key, old⟩ := first
    simp only [names, List.map_cons, List.nodup_cons] at hn
    rcases List.mem_cons.1 h with h | h
    · simp only [Prod.mk.injEq] at h
      simp [get?, h]
    · have hk : key ≠ name := fun hk => hn.1 (hk ▸ List.mem_map_of_mem h)
      simp only [get?, hk, if_false]
      exact ih hn.2 h

theorem get?_eq_none {name : κ} {pairs : Keyed α κ} : get? name pairs = none ↔ name ∉ names pairs := by
  induction pairs with
  | nil => simp [names]
  | cons first rest ih =>
    obtain ⟨key, old⟩ := first
    by_cases hk : key = name
    · simp [get?, names, hk]
    · simpa [get?, names, hk, Ne.symm hk] using ih

theorem get?_append (name : κ) (pairs more : Keyed α κ) :
    get? name (pairs ++ more) = (get? name pairs).or (get? name more) := by
  induction pairs with
  | nil => rfl
  | cons first rest ih =>
    obtain ⟨key, old⟩ := first
    by_cases hk : key = name
    · simp [get?, hk]
    · simp only [List.cons_append, get?, hk, if_false, ih]

/-- A new name goes to the end. -/
theorem put_of_notMem {name : κ} {pairs : Keyed α κ} (h : name ∉ names pairs) (value : α) :
    put name value pairs = pairs ++ [(name, value)] := by
  induction pairs with
  | nil => rfl
  | cons first rest ih =>
    obtain ⟨key, old⟩ := first
    simp only [names, List.map_cons, List.mem_cons, not_or] at h
    rw [put, if_neg (Ne.symm h.1), ih h.2, List.cons_append]

omit [DecidableEq κ] in
theorem names_append (pairs more : Keyed α κ) : names (pairs ++ more) = names pairs ++ names more := List.map_append

omit [DecidableEq κ] in
/-- A pair of distinct names has the others around it. -/
theorem split_of_mem {name : κ} {value : α} {pairs : Keyed α κ} (hn : pairs.names.Nodup)
    (h : (name, value) ∈ pairs) :
    ∃ before after : Keyed α κ, pairs = before ++ (name, value) :: after ∧ name ∉ before.names ∧ name ∉ after.names ∧
      before.names.Nodup ∧ after.names.Nodup ∧ ∀ other ∈ before.names, other ∉ after.names := by
  obtain ⟨before, after, rfl⟩ := List.append_of_mem h
  have hnames : names (before ++ (name, value) :: after) = names before ++ name :: names after :=
    names_append _ _
  rw [hnames, List.nodup_append, List.nodup_cons] at hn
  obtain ⟨hbefore, ⟨hname, hafter⟩, hdisjoint⟩ := hn
  refine ⟨before, after, rfl, ?_, hname, hbefore, hafter, ?_⟩
  · intro hmem
    exact hdisjoint name hmem name List.mem_cons_self rfl
  · intro other hother hmem
    exact hdisjoint other hother other (List.mem_cons_of_mem _ hmem) rfl

theorem names_put (name : κ) (value : α) (pairs : Keyed α κ) :
    names (put name value pairs) = if name ∈ names pairs then names pairs else names pairs ++ [name] := by
  induction pairs with
  | nil => simp [put, names]
  | cons pair rest ih =>
    obtain ⟨key, old⟩ := pair
    by_cases hk : key = name
    · simp [put, names, hk]
    · simp only [names] at ih
      by_cases hm : name ∈ rest.map Prod.fst <;> simp [put, names, hk, Ne.symm hk, ih, hm]

end Keyed

end Criteria
