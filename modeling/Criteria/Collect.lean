/-!
# Results in order

* `collect` — the results of a function on the members of a list, or its first failure.
* `checkEach` — the same for a test without a result.
-/

namespace Criteria

variable {α β γ ε : Type}

/-- The results for all members, or the first failure. -/
def collect (f : α → Except ε β) : List α → Except ε (List β)
  | [] => .ok []
  | x :: rest =>
    match f x with
    | .error e => .error e
    | .ok y =>
      match collect f rest with
      | .error e => .error e
      | .ok ys => .ok (y :: ys)

/-- Success if no member fails, or the first failure. -/
def checkEach (f : α → Except ε Unit) : List α → Except ε Unit
  | [] => .ok ()
  | x :: rest =>
    match f x with
    | .error e => .error e
    | .ok () => checkEach f rest

theorem eq_ok_of_toOption {result : Except ε α} {x : α} (h : result.toOption = some x) : result = .ok x := by
  cases result with
  | error e => cases h
  | ok y => exact congrArg Except.ok (Option.some.inj h)

theorem collect_attach (f : α → Except ε β) (xs : List α) :
    collect (fun x : { x // x ∈ xs } => f x.1) xs.attach = collect f xs := by
  suffices h : ∀ ys : List { x // x ∈ xs }, collect (fun x : { x // x ∈ xs } => f x.1) ys = collect f (ys.map (·.1)) by
    rw [h, List.attach_map_subtype_val]
  intro ys
  induction ys with
  | nil => rfl
  | cons y ys ih => simp only [collect, List.map_cons, ih]

/-- Collecting succeeds where each member does, with the results in place. -/
theorem collect_eq_ok {f : α → Except ε β} {xs : List α} {ys : List β} :
    collect f xs = .ok ys ↔ xs.map f = ys.map .ok := by
  induction xs generalizing ys with
  | nil => cases ys <;> simp [collect]
  | cons x xs ih =>
    unfold collect
    cases hx : f x with
    | error e => cases ys <;> simp [hx]
    | ok y =>
      cases hrest : collect f xs with
      | error e =>
        cases ys with
        | nil => simp
        | cons y' ys =>
          have hne : xs.map f ≠ ys.map .ok := by
            intro hmap
            have := ih.2 hmap
            rw [hrest] at this
            cases this
          simp [hne]
      | ok ys' =>
        have hmap := ih.1 hrest
        cases ys with
        | nil => simp
        | cons y' ys =>
          rw [List.map_cons, List.map_cons, hx, hmap]
          simp [List.map_inj_right]

theorem length_collect {f : α → Except ε β} {xs : List α} {ys : List β} (h : collect f xs = .ok ys) :
    ys.length = xs.length := by
  simpa using (congrArg List.length (collect_eq_ok.1 h)).symm

/-- What is said of each result by its member is said of all of them in order. -/
theorem map_collect {f : α → Except ε β} {xs : List α} {ys : List β} (h : collect f xs = .ok ys) {g : β → γ} {k : α → γ}
    (hg : ∀ x y, f x = .ok y → g y = k x) : ys.map g = xs.map k := by
  replace h := collect_eq_ok.1 h
  induction xs generalizing ys with
  | nil => cases ys <;> simp_all
  | cons x xs ih =>
    cases ys with
    | nil => cases h
    | cons y ys =>
      rw [List.map_cons, List.map_cons, List.cons.injEq] at h
      rw [List.map_cons, List.map_cons, hg x y h.1, ih h.2]

/-- Every result is that of a member. -/
theorem exists_of_mem_collect {f : α → Except ε β} {xs : List α} {ys : List β} (h : collect f xs = .ok ys) {y : β}
    (hy : y ∈ ys) : ∃ x ∈ xs, f x = .ok y := by
  have hmem : Except.ok y ∈ xs.map f := by
    rw [collect_eq_ok.1 h]
    exact List.mem_map_of_mem hy
  exact List.mem_map.1 hmem

/-- Every member has its result among them. -/
theorem exists_mem_collect {f : α → Except ε β} {xs : List α} {ys : List β} (h : collect f xs = .ok ys) {x : α}
    (hx : x ∈ xs) : ∃ y ∈ ys, f x = .ok y := by
  have hmem := List.mem_map_of_mem (f := f) hx
  rw [collect_eq_ok.1 h] at hmem
  obtain ⟨y, hy, heq⟩ := List.mem_map.1 hmem
  exact ⟨y, hy, heq.symm⟩

theorem isOk_of_collect {f : α → Except ε β} {xs : List α} {ys : List β} (h : collect f xs = .ok ys) {x : α}
    (hx : x ∈ xs) : ∃ y, f x = .ok y := by
  obtain ⟨y, -, hy⟩ := exists_mem_collect h hx
  exact ⟨y, hy⟩

/-- Collecting succeeds if no member fails. -/
theorem collect_isOk {f : α → Except ε β} {xs : List α} (h : ∀ x ∈ xs, ∃ y, f x = .ok y) :
    ∃ ys, collect f xs = .ok ys := by
  induction xs with
  | nil => exact ⟨[], rfl⟩
  | cons x xs ih =>
    obtain ⟨y, hy⟩ := h x List.mem_cons_self
    obtain ⟨ys, hys⟩ := ih fun x' hx' => h x' (List.mem_cons_of_mem _ hx')
    exact ⟨y :: ys, by simp only [collect, hy, hys]⟩

theorem collect_map (f : β → Except ε γ) (g : α → β) (xs : List α) :
    collect f (xs.map g) = collect (fun x => f (g x)) xs := by
  induction xs with
  | nil => rfl
  | cons x xs ih => simp only [List.map_cons, collect, ih]

theorem collect_congr {f g : α → Except ε β} {xs : List α} (h : ∀ x ∈ xs, f x = g x) : collect f xs = collect g xs := by
  induction xs with
  | nil => rfl
  | cons x xs ih =>
    simp only [collect, h x List.mem_cons_self, ih fun x' hx' => h x' (List.mem_cons_of_mem _ hx')]

theorem collect_map_ok (f : α → Except ε β) (g : β → γ) (xs : List α) :
    collect (fun x => (f x).map g) xs = (collect f xs).map (List.map g) := by
  induction xs with
  | nil => rfl
  | cons x xs ih =>
    simp only [collect, ih]
    cases f x with
    | error e => rfl
    | ok y => cases collect f xs <;> rfl

/-- Collecting fails with the failure of a member. -/
theorem exists_of_collect_error {f : α → Except ε β} {xs : List α} {e : ε} (h : collect f xs = .error e) :
    ∃ x ∈ xs, f x = .error e := by
  induction xs with
  | nil => cases h
  | cons x xs ih =>
    unfold collect at h
    split at h
    · rename_i e' hx
      cases h
      exact ⟨x, List.mem_cons_self, hx⟩
    · split at h
      · rename_i e' hxs
        cases h
        obtain ⟨x', hx', he⟩ := ih hxs
        exact ⟨x', List.mem_cons_of_mem _ hx', he⟩
      · cases h

theorem checkEach_eq_ok {f : α → Except ε Unit} {xs : List α} :
    checkEach f xs = .ok () ↔ ∀ x ∈ xs, f x = .ok () := by
  induction xs with
  | nil => simp [checkEach]
  | cons x xs ih =>
    unfold checkEach
    cases hx : f x with
    | error e => simp [hx]
    | ok u => simp [hx, ih]

theorem exists_of_checkEach_error {f : α → Except ε Unit} {xs : List α} {e : ε} (h : checkEach f xs = .error e) :
    ∃ x ∈ xs, f x = .error e := by
  induction xs with
  | nil => cases h
  | cons x xs ih =>
    unfold checkEach at h
    split at h
    · rename_i e' hx
      cases h
      exact ⟨x, List.mem_cons_self, hx⟩
    · obtain ⟨x', hx', he⟩ := ih h
      exact ⟨x', List.mem_cons_of_mem _ hx', he⟩

end Criteria
