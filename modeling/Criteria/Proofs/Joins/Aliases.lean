import Criteria.Proofs.Joins.Reach
import Mathlib.Data.List.Nodup
import Mathlib.Data.List.Pairwise

/-!
# Aliases

Each table or alias is asked for under a stem: a table name, or a relationship with the table it starts from. The first
use of a stem is written as it is, and each further one with its number.

* `numbered` — how a use is written; `numbered_eq_iff` says when two uses are written alike.
* `Counted` — the names of the root table and of the joins are, up to order, all uses of all stems.
* `nodup_qualifiers_iff` — so no two of them are alike just if no number makes a stem into another one that is in use.
* `not_nodup_qualifiers` — a schema where that happens: a second alias `children_people_2` is a table's own name.
-/

namespace Criteria

/-- Two lists are alike up to the last occurrence of a member, and behind it, if they are alike. -/
theorem append_cons_inj_of_notMem_right {α : Type} {x : α} {pre pre' post post' : List α} (hx : x ∉ post)
    (hx' : x ∉ post') (h : pre ++ x :: post = pre' ++ x :: post') : pre = pre' ∧ post = post' := by
  rcases List.append_eq_append_iff.1 h with ⟨mid, hpre, hmid⟩ | ⟨mid, hpre, hmid⟩ <;> cases mid with
  | nil => simp_all
  | cons y mid => simp_all

/-- The `n`-th use of a stem. -/
def numbered (stem : String) (n : Nat) : String := if n = 1 then stem else stem ++ "_" ++ toString n

@[simp] theorem numbered_one (stem : String) : numbered stem 1 = stem := rfl

theorem toList_numbered {n : Nat} (hn : n ≠ 1) (stem : String) :
    (numbered stem n).toList = stem.toList ++ '_' :: Nat.toDigits 10 n := by
  unfold numbered
  rw [if_neg hn, String.toList_append, String.toList_append, Nat.toString_eq_ofList_toDigits, String.toList_ofList]
  simp

/-- The number stands behind the last underscore. -/
theorem numbered_inj {stem stem' : String} {n n' : Nat} (hn : n ≠ 1) (hn' : n' ≠ 1)
    (h : numbered stem n = numbered stem' n') : stem = stem' ∧ n = n' := by
  have hlist : stem.toList ++ '_' :: Nat.toDigits 10 n = stem'.toList ++ '_' :: Nat.toDigits 10 n' := by
    rw [← toList_numbered hn, ← toList_numbered hn', h]
  obtain ⟨hstem, hdigits⟩ := append_cons_inj_of_notMem_right (by simp) (by simp) hlist
  have hnum := congrArg (fun digits => Nat.ofDigitChars 10 digits 0) hdigits
  exact ⟨String.toList_inj.1 hstem, by simpa using hnum⟩

theorem numbered_ne_self {n : Nat} (hn : n ≠ 1) (stem : String) : numbered stem n ≠ stem := by
  intro h
  have hlen := congrArg (fun s => s.toList.length) h
  simp only [toList_numbered hn, List.length_append, List.length_cons] at hlen
  omega

/-- Two uses are written alike only if one of them is the first of a stem that ends in the number of the other. -/
theorem numbered_eq_iff {stem stem' : String} {n n' : Nat} (h : (stem, n) ≠ (stem', n')) :
    numbered stem n = numbered stem' n' ↔
      (n' = 1 ∧ n ≠ 1 ∧ stem' = numbered stem n) ∨ (n = 1 ∧ n' ≠ 1 ∧ stem = numbered stem' n') := by
  by_cases hn : n = 1 <;> by_cases hn' : n' = 1
  · subst hn hn'
    simpa using fun he => h (by rw [he])
  · subst hn
    simp [hn']
  · subst hn'
    simp [hn, eq_comm]
  · simp only [hn, hn', false_and, or_self, iff_false]
    intro he
    obtain ⟨rfl, rfl⟩ := numbered_inj hn hn' he
    exact h rfl

namespace JoinTable

variable {c : Catalog} {t t' : JoinTable}

/-! ## The uses of stems -/

/-- The names by which the root table and the joins are told apart. -/
def qualifiers (t : JoinTable) : List String := t.root.table :: t.joins.map Join.aliasName

/-- The uses of one stem. -/
def usesOf (entry : String × Nat) : List String := (List.range' 1 entry.2).map (numbered entry.1)

/-- All uses of all stems. -/
def allUses (uses : Keyed Nat) : List String := uses.flatMap usesOf

theorem mem_usesOf {entry : String × Nat} {name : String} :
    name ∈ usesOf entry ↔ ∃ n, 1 ≤ n ∧ n ≤ entry.2 ∧ numbered entry.1 n = name := by
  simp only [usesOf, List.mem_map, List.mem_range'_1]
  constructor
  · rintro ⟨n, ⟨hlow, hhigh⟩, rfl⟩
    exact ⟨n, hlow, by omega, rfl⟩
  · rintro ⟨n, hlow, hhigh, rfl⟩
    exact ⟨n, ⟨hlow, by omega⟩, rfl⟩

theorem nodup_usesOf (entry : String × Nat) : (usesOf entry).Nodup := by
  refine (List.nodup_range' (h := by omega)).map_on fun n hn n' hn' h => ?_
  by_contra hne
  have hpair : (entry.1, n) ≠ (entry.1, n') := fun he => hne (congrArg Prod.snd he)
  rcases (numbered_eq_iff hpair).1 h with ⟨-, hn1, hs⟩ | ⟨-, hn1, hs⟩ <;> exact numbered_ne_self hn1 _ hs.symm

theorem usesOf_succ (stem : String) (n : Nat) : usesOf (stem, n + 1) = usesOf (stem, n) ++ [numbered stem (n + 1)] := by
  simp [usesOf, List.range'_concat, Nat.add_comm]

/-- One more use of a stem. -/
theorem perm_allUses_put (stem : String) (uses : Keyed Nat) :
    (allUses (uses.put stem ((uses.get? stem).getD 0 + 1))).Perm
      (allUses uses ++ [numbered stem ((uses.get? stem).getD 0 + 1)]) := by
  induction uses with
  | nil => simp [Keyed.put, allUses, usesOf]
  | cons entry rest ih =>
    obtain ⟨key, count⟩ := entry
    by_cases hk : key = stem
    · subst hk
      simp only [Keyed.get?, if_true, Option.getD_some, Keyed.put, allUses, List.flatMap_cons, usesOf_succ,
        List.append_assoc]
      exact List.perm_append_comm.append_left _
    · simp only [Keyed.get?, hk, if_false, Keyed.put, allUses, List.flatMap_cons, List.append_assoc]
      exact ih.append_left _

/-- An alias is the next use of the table or of the relationship with the table that it starts from. -/
theorem aliasFor_eq (uses : Keyed Nat) (relationship table parentTable : String) :
    ∃ stem, (stem = table ∨ stem = relationship ++ "_" ++ parentTable) ∧
      aliasFor uses relationship table parentTable = (numbered stem ((uses.get? stem).getD 0 + 1),
        uses.put stem ((uses.get? stem).getD 0 + 1)) := by
  unfold aliasFor
  cases htable : uses.get? table with
  | none => exact ⟨table, .inl rfl, by simp [htable]⟩
  | some count => exact ⟨relationship ++ "_" ++ parentTable, .inr rfl, rfl⟩

/-! ## The invariant of the counts -/

/-- The counts of a table say which names it has given. -/
structure Counted (t : JoinTable) : Prop where
  perm : t.qualifiers.Perm (allUses t.uses)
  nodup : t.uses.names.Nodup
  pos : ∀ entry ∈ t.uses, 1 ≤ entry.2

theorem counted_start (root : Entity) : Counted (start root) where
  perm := by simp [qualifiers, start, allUses, usesOf]
  nodup := by simp [start, Keyed.names]
  pos := by simp [start]

theorem Extends.counted (h : Extends c t t') (ht : Counted t) : Counted t' := by
  cases h with
  | @join relationship parent source target r hparent hnew hsource hr htarget =>
    obtain ⟨stem, -, halias⟩ := aliasFor_eq t.uses relationship target.table source.table
    have huses : (t.extend relationship parent source target r).uses =
        t.uses.put stem ((t.uses.get? stem).getD 0 + 1) := congrArg Prod.snd halias
    have hname : (t.newJoin relationship parent source target r).aliasName =
        numbered stem ((t.uses.get? stem).getD 0 + 1) := congrArg Prod.fst halias
    constructor
    case perm =>
      have hquals : (t.extend relationship parent source target r).qualifiers =
          t.qualifiers ++ [numbered stem ((t.uses.get? stem).getD 0 + 1)] := by
        rw [← hname]
        simp only [qualifiers, joins_extend, List.map_append, List.map_cons, List.map_nil, List.cons_append]
        rfl
      rw [hquals, huses]
      exact (ht.perm.append_right _).trans (perm_allUses_put stem t.uses).symm
    case nodup =>
      rw [huses, Keyed.names_put]
      split
      · exact ht.nodup
      · rename_i hstem
        refine List.nodup_append.2 ⟨ht.nodup, by simp, fun name hname name' hname' he => ?_⟩
        rw [he, List.mem_singleton.1 hname'] at hname
        exact hstem hname
    case pos =>
      intro entry hentry
      rw [huses] at hentry
      rcases Keyed.mem_put hentry with rfl | hentry
      · exact Nat.le_add_left 1 _
      · exact ht.pos entry hentry

theorem Reachable.counted {root : Entity} (h : Reachable c root t) : Counted t := by
  have hgrows := h.grows
  clear h
  induction hgrows with
  | refl => exact counted_start root
  | tail _ hstep ih => exact hstep.counted ih

/-! ## When the names are distinct -/

/-- No use of a stem but the first is written like another stem that is in use. -/
def NumbersAreFree (t : JoinTable) : Prop :=
  ∀ stem count, t.uses.get? stem = some count → ∀ n, 2 ≤ n → n ≤ count → t.uses.get? (numbered stem n) = none

theorem Counted.nodup_iff (ht : Counted t) : t.qualifiers.Nodup ↔ t.NumbersAreFree := by
  rw [ht.perm.nodup_iff, allUses, List.nodup_flatMap]
  constructor
  · rintro ⟨-, hpair⟩ stem count hstem n hlow hhigh
    rw [Option.eq_none_iff_forall_ne_some]
    intro count' hstem'
    -- the other stem is written like this use of the first, so two entries share a name
    have hmem := Keyed.mem_of_get? hstem
    have hmem' := Keyed.mem_of_get? hstem'
    have hne : (stem, count) ≠ (numbered stem n, count') := fun he =>
      numbered_ne_self (by omega) stem (congrArg Prod.fst he).symm
    have : Std.Symm (Function.onFun List.Disjoint usesOf) := ⟨fun _ _ h _ ha hb => h hb ha⟩
    have hdisj := hpair.forall hmem hmem' hne
    exact hdisj (mem_usesOf.2 ⟨n, by omega, hhigh, rfl⟩) (mem_usesOf.2 ⟨1, Nat.le_refl 1, ht.pos _ hmem', rfl⟩)
  · intro hfree
    refine ⟨fun entry _ => nodup_usesOf entry, (List.Nodup.of_map _ ht.nodup).pairwise_of_forall_ne ?_⟩
    rintro ⟨stem, count⟩ hmem ⟨stem', count'⟩ hmem' hne name hname hname'
    obtain ⟨n, hlow, hhigh, rfl⟩ := mem_usesOf.1 hname
    obtain ⟨n', hlow', hhigh', heq⟩ := mem_usesOf.1 hname'
    have hget := Keyed.get?_of_mem ht.nodup hmem
    have hget' := Keyed.get?_of_mem ht.nodup hmem'
    have hpair : (stem', n') ≠ (stem, n) := by
      intro he
      simp only [Prod.mk.injEq] at he
      rw [← he.1, hget'] at hget
      exact hne (by rw [he.1, Option.some.inj hget])
    rcases (numbered_eq_iff hpair).1 heq with ⟨-, hn, rfl⟩ | ⟨-, hn, rfl⟩
    · rw [hfree stem' count' hget' n' (by omega) hhigh'] at hget
      cases hget
    · rw [hfree stem count hget n (by omega) hhigh] at hget'
      cases hget'

/-! ## Schemas in which the names are always distinct -/

end JoinTable

/-- The stems that a schema can make: tables, and relationships with the table they start from. -/
inductive Catalog.IsStem (c : Catalog) : String → Prop
  | table {name : String} {e : Entity} (he : c.entity? name = some e) : IsStem c e.table
  | relationship {name relationship : String} {e : Entity} {r : Relationship} (he : c.entity? name = some e)
      (hr : e.relationship? relationship = some r) : IsStem c (relationship ++ "_" ++ e.table)

/-- No stem ends in the number of another one. -/
def Catalog.NumbersAreFree (c : Catalog) : Prop := ∀ stem n, c.IsStem stem → 2 ≤ n → ¬ c.IsStem (numbered stem n)

namespace JoinTable

variable {c : Catalog} {t t' : JoinTable} {name : String} {root : Entity}

theorem entityAt_eq_ok {place : Option Nat} {e : Entity} (h : t.entityAt c place = .ok e) :
    e = t.root ∨ ∃ name, c.entity? name = some e := by
  cases place with
  | none => exact .inl (Except.ok.inj h).symm
  | some index =>
    simp only [entityAt] at h
    split at h
    · rename_i e' he'
      cases h
      exact .inr ⟨_, he'⟩
    · cases h

theorem Grows.isStem (hroot : c.entity? name = some root) (h : Grows c (start root) t) :
    ∀ stem ∈ t.uses.names, c.IsStem stem := by
  induction h with
  | refl =>
    intro stem hstem
    simp only [start, Keyed.names, List.map_cons, List.map_nil, List.mem_singleton] at hstem
    rw [hstem]
    exact .table hroot
  | @tail u v hu hstep ih =>
    cases hstep with
    | @join relationship parent source target r hparent hnew hsource hr htarget =>
      have hregistered : ∃ name, c.entity? name = some source := by
        rcases entityAt_eq_ok hsource with rfl | hsource
        · exact ⟨name, (Grows.continues hu).root ▸ hroot⟩
        · exact hsource
      obtain ⟨sourceName, hsourceName⟩ := hregistered
      obtain ⟨stem, hstem, halias⟩ := aliasFor_eq u.uses relationship target.table source.table
      have huses : (u.extend relationship parent source target r).uses =
          u.uses.put stem ((u.uses.get? stem).getD 0 + 1) := congrArg Prod.snd halias
      intro other hother
      have hcases : other ∈ u.uses.names ∨ other = stem := by
        rw [huses, Keyed.names_put] at hother
        split at hother
        · exact .inl hother
        · simpa using hother
      rcases hcases with hother | rfl
      · exact ih other hother
      · rcases hstem with rfl | rfl
        · exact .table htarget
        · exact .relationship hsourceName hr

theorem Reachable.numbersAreFree (hroot : c.entity? name = some root) (h : Reachable c root t)
    (hfree : c.NumbersAreFree) : t.NumbersAreFree := by
  have hstems := h.grows.isStem hroot
  intro stem count hstem n hlow hhigh
  rw [Option.eq_none_iff_forall_ne_some]
  intro count' hstem'
  refine hfree stem n (hstems stem ?_) hlow (hstems _ ?_)
  · exact List.mem_map_of_mem (Keyed.mem_of_get? hstem)
  · exact List.mem_map_of_mem (Keyed.mem_of_get? hstem')

/-- The names of the root table and of the joins are distinct just if no number makes a stem into another one that is in
use; in some schemas it cannot. -/
theorem nodup_qualifiers_iff (hroot : c.entity? name = some root) (h : Reachable c root t) :
    (t.qualifiers.Nodup ↔ t.NumbersAreFree) ∧ (c.NumbersAreFree → t.qualifiers.Nodup) :=
  ⟨h.counted.nodup_iff, fun hfree => h.counted.nodup_iff.2 (h.numbersAreFree hroot hfree)⟩

/-! ## A schema in which they are not -/

/-- People with children and notes. -/
def people : Entity :=
  (((Entity.new "Person" "people").column "name" .string).hasMany "children" "Person" "parent_id").hasMany
    "notes" "Note" "person_id"

/-- The notes stand in a table that is named like the second alias of the children. -/
def crowded : Schema :=
  (Schema.empty.register people).register ((Entity.new "Note" "children_people_2").column "body" .text)

/-- The joins of children, of their children, and of notes. -/
def crowdedJoins : JoinTable :=
  ["children_name", "children_children_name", "notes_body"].foldl
    (fun t name => t.perform crowded.catalog (.resolveName name)) (start people)

theorem reachable_crowdedJoins : Reachable crowded.catalog people crowdedJoins :=
  ((Reachable.start.perform (.resolveName "children_name")).perform (.resolveName "children_children_name")).perform
    (.resolveName "notes_body")

theorem qualifiers_crowdedJoins :
    crowdedJoins.qualifiers = ["people", "children_people", "children_people_2", "children_people_2"] := by
  decide +kernel

/-- The second use of a stem may be written like the name of another table. -/
theorem not_nodup_qualifiers : ¬ ∀ (s : Schema) (name : String) (root : Entity) (t : JoinTable),
    s.catalog.entity? name = some root → Reachable s.catalog root t → t.qualifiers.Nodup := by
  intro h
  have hnodup := h crowded "Person" people crowdedJoins (by decide) reachable_crowdedJoins
  rw [qualifiers_crowdedJoins] at hnodup
  exact absurd hnodup (by decide)

theorem nodup_qualifiers_iff_crowded :
    crowded.catalog.entity? "Person" = some people ∧ Reachable crowded.catalog people crowdedJoins ∧
      (crowdedJoins.qualifiers.Nodup ↔ crowdedJoins.NumbersAreFree) ∧ ¬ crowdedJoins.NumbersAreFree := by
  have hroot : crowded.catalog.entity? "Person" = some people := by decide
  have hiff := (nodup_qualifiers_iff hroot reachable_crowdedJoins).1
  refine ⟨hroot, reachable_crowdedJoins, hiff, fun hfree => ?_⟩
  have hnodup := hiff.2 hfree
  rw [qualifiers_crowdedJoins] at hnodup
  exact absurd hnodup (by decide)

end JoinTable

end Criteria
