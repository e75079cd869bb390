import Criteria.Proofs.Joins.Passes
import Mathlib.Data.List.Infix

/-!
# Joins in order of first use

* `AttributePath.stages` — the chains up to each hop of an attribute, the shortest first.
* `Lists` — joins have given chains, in order.
* `Lists.join`, `Lists.follow`, `Lists.resolve`, `Lists.passes` — joins that list the chains used so far, each once,
  still do when further attributes are resolved.
-/

namespace Criteria

theorem eraseDups_concat {α : Type} [BEq α] [LawfulBEq α] (xs : List α) (x : α) [Decidable (x ∈ xs)] :
    (xs ++ [x]).eraseDups = if x ∈ xs then xs.eraseDups else xs.eraseDups ++ [x] := by
  rw [List.eraseDups_append]
  by_cases hx : x ∈ xs <;> simp [List.removeAll, hx, List.eraseDups_cons]

/-- The chains up to each hop of an attribute. -/
def AttributePath.stages (path : AttributePath) : List (List String) := path.chain.inits.tail

theorem inits_tail_cons (relationship : String) (chain : List String) :
    (relationship :: chain).inits.tail = [relationship] :: chain.inits.tail.map (relationship :: ·) := by
  cases chain <;> simp

namespace JoinTable

variable {c : Catalog} {t u : JoinTable}

/-! ## Chains of joins -/

theorem Spells.of_isPrefix {joins joins' : List Join} (h : joins <+: joins') {place : Option Nat} {chain : List String}
    (hs : Spells joins place chain) : Spells joins' place chain := by
  induction hs with
  | root => exact .root
  | join hj _ ih =>
    obtain ⟨more, rfl⟩ := h
    refine .join ?_ ih
    rw [List.getElem?_append_left (List.getElem?_eq_some_iff.1 hj).1]
    exact hj

theorem Spells.chain_inj {joins : List Join} {place : Option Nat} {chain chain' : List String}
    (h : Spells joins place chain) (h' : Spells joins place chain') : chain = chain' := by
  induction h generalizing chain' with
  | root =>
    cases h'
    rfl
  | join hj _ ih =>
    cases h' with
    | join hj' h' =>
      rw [hj] at hj'
      cases hj'
      rw [ih h']

/-- The joins have these chains, in order. -/
def Lists (joins : List Join) (chains : List (List String)) : Prop :=
  joins.length = chains.length ∧ ∀ i chain, chains[i]? = some chain → Spells joins (some i) chain

theorem lists_nil : Lists [] [] := ⟨rfl, by simp⟩

theorem Lists.mem_iff {joins : List Join} {chains : List (List String)} (h : Lists joins chains) {chain : List String} :
    chain ∈ chains ↔ ∃ i, Spells joins (some i) chain := by
  constructor
  · intro hmem
    obtain ⟨i, hi⟩ := List.mem_iff_getElem?.1 hmem
    exact ⟨i, h.2 i chain hi⟩
  · rintro ⟨i, hs⟩
    have hi : i < chains.length := by
      rw [← h.1]
      cases hs with
      | join hj _ => exact (List.getElem?_eq_some_iff.1 hj).1
    rw [hs.chain_inj (h.2 i _ (List.getElem?_eq_getElem hi))]
    exact List.getElem_mem hi

theorem Lists.concat {joins : List Join} {chains : List (List String)} (h : Lists joins chains) {j : Join}
    {chain : List String} (hs : Spells (joins ++ [j]) (some joins.length) chain) :
    Lists (joins ++ [j]) (chains ++ [chain]) := by
  refine ⟨by simp [h.1], fun i other hi => ?_⟩
  by_cases hlt : i < chains.length
  · rw [List.getElem?_append_left hlt] at hi
    exact (h.2 i other hi).of_isPrefix (List.prefix_append _ _)
  · have hlast : i = joins.length := by
      have hbound := (List.getElem?_eq_some_iff.1 hi).1
      simp only [List.length_append, List.length_singleton] at hbound
      have hlength := h.1
      omega
    rw [hlast, h.1, List.getElem?_concat_length] at hi
    cases hi
    rwa [hlast]

/-! ## One more use -/

/-- A join is remembered where it is, or it is new and stands behind the others. -/
theorem join_eq_ok {relationship : String} {parent : Option Nat} {index : Nat}
    (h : t.join c relationship parent = .ok (u, index)) :
    (t.memo.get? (relationship, parent) = some index ∧ u = t) ∨
      (t.memo.get? (relationship, parent) = none ∧ index = t.joins.length ∧
        ∃ source target r, u = t.extend relationship parent source target r) := by
  unfold join at h
  split at h
  · rename_i i hi
    cases h
    exact .inl ⟨hi, rfl⟩
  · rename_i hnew
    split at h
    · cases h
    · rename_i source _
      split at h
      · cases h
      · rename_i r _
        split at h
        · cases h
        · rename_i target _
          cases h
          exact .inr ⟨hnew, rfl, source, target, r, rfl⟩

/-- The chain of a join that is not remembered is not listed. -/
theorem Lists.notMem_of_get?_eq_none (hw : WellFormed c t) {chains : List (List String)} (hl : Lists t.joins chains)
    {relationship : String} {parent : Option Nat} {pre : List String} (hp : Spells t.joins parent pre)
    (hnew : t.memo.get? (relationship, parent) = none) : pre ++ [relationship] ∉ chains := by
  rw [hl.mem_iff]
  rintro ⟨i, hs⟩
  -- the join would start from the same place, and so be the one that is looked for
  generalize hchain : pre ++ [relationship] = chain at hs
  cases hs with
  | @join _ j pre' hj hs =>
    obtain ⟨hpre, hlast⟩ := List.append_inj' hchain rfl
    subst hpre
    exact hw.ne_of_get?_eq_none hnew hj (by simpa using hlast.symm) (hs.inj hw hp)

variable {used : List (List String)}

theorem Lists.join (hw : WellFormed c t) (hl : Lists t.joins used.eraseDups) {relationship : String}
    {parent : Option Nat} {pre : List String} {index : Nat} (hp : Spells t.joins parent pre)
    (h : t.join c relationship parent = .ok (u, index)) :
    Lists u.joins (used ++ [pre ++ [relationship]]).eraseDups ∧
      Spells u.joins (some index) (pre ++ [relationship]) := by
  rw [eraseDups_concat]
  rcases join_eq_ok h with ⟨hindex, rfl⟩ | ⟨hnew, rfl, source, target, r, rfl⟩
  · obtain ⟨j, hj, hrel, hpar⟩ := hw.get?_memo.1 hindex
    have hs : Spells u.joins (some index) (pre ++ [j.relationship]) := .join hj (hpar ▸ hp)
    rw [hrel] at hs
    have hused := hl.mem_iff.2 ⟨_, hs⟩
    rw [List.mem_eraseDups] at hused
    rw [if_pos hused]
    exact ⟨hl, hs⟩
  · have hfresh := hl.notMem_of_get?_eq_none hw hp hnew
    rw [List.mem_eraseDups] at hfresh
    rw [if_neg hfresh, joins_extend]
    have hs : Spells (t.joins ++ [t.newJoin relationship parent source target r]) (some t.joins.length)
        (pre ++ [(t.newJoin relationship parent source target r).relationship]) :=
      .join List.getElem?_concat_length (hp.of_isPrefix (List.prefix_append _ _))
    exact ⟨hl.concat hs, hs⟩

theorem Lists.follow (hw : WellFormed c t) (hl : Lists t.joins used.eraseDups) {parent last : Option Nat}
    {pre : List String} (hp : Spells t.joins parent pre) {hops : List Hop}
    (h : t.follow c parent hops = (u, .ok last)) :
    Lists u.joins (used ++ (hops.map Hop.relationship).inits.tail.map (pre ++ ·)).eraseDups := by
  induction hops generalizing t used parent pre with
  | nil =>
    cases h
    simpa using hl
  | cons hop hops ih =>
    unfold JoinTable.follow at h
    split at h
    · cases h
    · rename_i v index hjoin
      obtain ⟨hlv, hsv⟩ := hl.join hw hp hjoin
      have hrest := ih ((join_grows hw hp.hasPlace hjoin).1.wellFormed hw) hlv hsv h
      have hpre : (pre ++ [hop.relationship] ++ · : List String → List String) =
          (pre ++ ·) ∘ (hop.relationship :: ·) := by
        funext chain
        simp
      rwa [List.append_assoc, List.singleton_append, hpre, ← List.map_map, ← List.map_cons, ← inits_tail_cons] at hrest

theorem Lists.resolve (hw : WellFormed c t) (hl : Lists t.joins used.eraseDups) {path : AttributePath} {column : Column}
    (h : t.resolve c path = (u, .ok column)) : Lists u.joins (used ++ path.stages).eraseDups := by
  unfold JoinTable.resolve at h
  split at h
  · cases h
  · rename_i last hfollow
    cases h
    simpa [AttributePath.stages, AttributePath.chain] using hl.follow hw .root hfollow

/-- When all attributes of a pass have been resolved, the joins are those that were there and those of the stages of the
attributes, each once, in order of first use. -/
theorem Lists.passes (hw : WellFormed c t) (hl : Lists t.joins used.eraseDups) {paths : List AttributePath}
    (h : Passes c t paths u true) : Lists u.joins (used ++ paths.flatMap AttributePath.stages).eraseDups := by
  generalize hall : true = all at h
  induction h generalizing used with
  | done => simpa using hl
  | stop => cases hall
  | fail => cases hall
  | @next t v u path rest column all hpath _ ih =>
    have hgrow := Grows.to (resolve_grows hw path) hpath
    have hrest := ih (Grows.wellFormed hgrow hw) (hl.resolve hw hpath) hall
    rwa [List.append_assoc, ← List.flatMap_cons] at hrest

end JoinTable

end Criteria
