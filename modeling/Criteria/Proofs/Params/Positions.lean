import Criteria.Proofs.Number.Digits
import Criteria.Proofs.Params.Conditions
import Criteria.Proofs.Params.Sorts
import Criteria.Proofs.Searches.Reach
import Mathlib.Data.List.Nodup

/-!
# Lists by position

* `Slot`, `Keyed.Indexes` — an item under a key that writes its position, and a mapping of such items in any order.
* `Keyed.Indexes.indexed?_eq` — it is taken for the list of its items by ascending position.
* `Json.ReadAlike` — values that are the same sorts, the same groups and the same records, or fail alike.
* `positions_read_as_lists` — mappings by position are read as lists wherever lists are, every other mapping as the list
  of itself where it may stand in one, and sorts as they are written in either shape.
-/

namespace Criteria

open Number (IsPosition index? index?_eq_some)

variable {α : Type}

/-! ## Mappings by position -/

/-- An item under a key that writes its position. -/
structure Slot (α : Type) where
  index : Nat
  key : String
  item : α
  isPosition : IsPosition key index

/-- The field of a mapping that a slot is. -/
def Slot.field (slot : Slot α) : String × α := (slot.key, slot.item)

/-- The fields are slots of different positions, in any order, and the items are theirs by ascending position. -/
def Keyed.Indexes (fields : Keyed α) (items : List α) : Prop :=
  ∃ slots : List (Slot α), slots.Pairwise (fun a b => a.index < b.index) ∧ fields.Perm (slots.map Slot.field) ∧
    items = slots.map Slot.item

theorem Slot.index?_key (slot : Slot α) : index? slot.key = some slot.index := index?_eq_some.2 slot.isPosition

theorem positions?_eq_some {fields : Keyed α} (h : ∀ field ∈ fields, (index? field.1).isSome = true) :
    positions? fields = some (fields.map fun field => ((index? field.1).getD 0, field.2)) := by
  induction fields with
  | nil => rfl
  | cons field rest ih =>
    obtain ⟨key, item⟩ := field
    obtain ⟨index, hindex⟩ := Option.isSome_iff_exists.1 (h (key, item) List.mem_cons_self)
    dsimp only at hindex
    rw [positions?, ih fun field hfield => h field (List.mem_cons_of_mem _ hfield), List.map_cons, hindex]
    rfl

/-- Sorting gives the one order in which the positions ascend, if they differ. -/
theorem sortByIndex_eq {entries sorted : List (Nat × α)} (hperm : entries.Perm sorted)
    (hsorted : sorted.Pairwise fun a b => a.1 < b.1) : sortByIndex entries = sorted := by
  have hsame : (sortByIndex entries).Perm sorted := (perm_sortByIndex entries).trans hperm
  have hinj : ∀ a ∈ sorted, ∀ b ∈ sorted, a.1 = b.1 → a = b := by
    have hnodup : (sorted.map Prod.fst).Nodup := by
      rw [List.Nodup, List.pairwise_map]
      exact hsorted.imp Nat.ne_of_lt
    intro a ha b hb hab
    exact List.inj_on_of_nodup_map hnodup ha hb hab
  refine List.Perm.eq_of_pairwise ?_ (pairwise_sortByIndex entries) (hsorted.imp Nat.le_of_lt) hsame
  intro a b ha hb hab hba
  exact hinj a (hsame.mem_iff.1 ha) b hb (Nat.le_antisymm hab hba)

theorem Keyed.Indexes.indexed?_eq {fields : Keyed α} {items : List α} (h : fields.Indexes items) (hne : fields ≠ []) :
    indexed? fields = some items := by
  obtain ⟨slots, hsorted, hperm, rfl⟩ := h
  have hindexed : ∀ field ∈ fields, (index? field.1).isSome = true := by
    intro field hfield
    obtain ⟨slot, -, rfl⟩ := List.mem_map.1 (hperm.mem_iff.1 hfield)
    rw [Slot.field, slot.index?_key]
    rfl
  have hpositions := positions?_eq_some hindexed
  have hentries := hperm.map fun field => ((index? field.1).getD 0, field.2)
  have hslots : (slots.map Slot.field).map (fun field => ((index? field.1).getD 0, field.2)) =
      slots.map fun slot => (slot.index, slot.item) := by
    rw [List.map_map]
    apply List.map_congr_left
    intro slot _
    simp [Slot.field, slot.index?_key]
  rw [hslots] at hentries
  rw [indexed?, if_neg (by simpa using hne), hpositions, Option.map_some,
    sortByIndex_eq hentries (List.pairwise_map.2 hsorted), List.map_map]
  rfl

/-- A mapping with a key that is no position is no list. -/
theorem indexed?_eq_none_of_name {fields : Keyed α} (h : ∃ name ∈ fields.names, ∀ n, ¬ IsPosition name n) :
    indexed? fields = none := by
  obtain ⟨name, hname, hnot⟩ := h
  refine indexed?_eq_none.2 (.inr ⟨name, hname, ?_⟩)
  rw [Option.eq_none_iff_forall_ne_some]
  intro n hn
  exact hnot n (index?_eq_some.1 hn)

/-! ## Values that are read alike -/

/-- Two values write the same sorts, the same groups and the same records, or fail alike. -/
structure Json.ReadAlike (v w : Json) : Prop where
  sorts : readSorts v = readSorts w
  groups : ∀ r : Reader, r.groups v = r.groups w
  records : ∀ r : Reader, r.records v = r.records w

variable {v w : Json} {fields : Keyed Json} {items : List Json}

theorem Json.readAlike_of_mappings (hsorts : readSorts v = readSorts w) (h : mappings v = mappings w) :
    v.ReadAlike w where
  sorts := hsorts
  groups r := by rw [Reader.groups_eq, Reader.groups_eq, h]
  records r := by rw [Reader.records, Reader.records, h]

/-- What is read alike adds the same under every key, if the two are the same value where the key is a condition's. -/
theorem Json.ReadAlike.contribution_eq (h : v.ReadAlike w) {r : Reader} {key : String}
    (hvalue : r.settings.role key = .condition → Value.ofJson v = Value.ofJson w) :
    r.contribution key v = r.contribution key w := by
  rw [Reader.contribution, Reader.contribution]
  cases hrole : r.settings.role key with
  | orGroups | andGroups => dsimp only; rw [h.groups]
  | records => dsimp only; rw [h.records]
  | sorts => rfl
  | condition => dsimp only; rw [Reader.namedCondition, Reader.namedCondition, hvalue hrole]

theorem Json.readAlike_of_indexed? (h : indexed? fields = some items) : (Json.object fields).ReadAlike (.array items) :=
  Json.readAlike_of_mappings (by simp only [readSorts, h]) (by simp only [mappings, h])

theorem Value.ofJson_of_indexed? (h : indexed? fields = some items) : ofJson (.object fields) = ofJson (.array items) := by
  simp only [ofJson, h]

theorem Json.readAlike_singleton (h : indexed? fields = none) :
    (Json.object fields).ReadAlike (.array [.object fields]) := by
  apply Json.readAlike_of_mappings
  · simp only [readSorts, h, sortItems, collect, sortItem]
    cases sortRecord fields with
    | error e => rfl
    | ok key => cases key <;> rfl
  · simp only [mappings, h]
    rfl

namespace Search

/-- In the place of a value may stand one that is read alike. -/
theorem build_congr (h : v.ReadAlike w) {settings : Settings} {key : String}
    (hvalue : settings.isReserved key = false → Value.ofJson v = Value.ofJson w) (c : Catalog) (root : String)
    (before after : Keyed Json) :
    build c root settings (before ++ (key, v) :: after) = build c root settings (before ++ (key, w) :: after) := by
  unfold build
  cases c.entity? root with
  | none => rfl
  | some e =>
    dsimp only
    rw [addEntries_append, addEntries_append]
    cases hbefore : addEntries c ⟨root, settings, [], [], []⟩ before with
    | error e => rfl
    | ok q =>
      have hreader : q.reader c = ⟨c, root, settings⟩ := (addEntries_eq_ok hbefore).1
      have hentry : (q.reader c).contribution key v = (q.reader c).contribution key w := by
        rw [hreader]
        exact h.contribution_eq fun hrole => hvalue (Settings.isReserved_of_role hrole)
      show addEntries c q ((key, v) :: after) = addEntries c q ((key, w) :: after)
      rw [addEntries, addEntries, hentry, h.sorts]

end Search

/-- A mapping of items under different positions, in any order, is read as the list of the items by ascending position:
as sorts, groups, records and the value of a condition, in any entry at any depth, with the same failure if there is one.
A mapping with a key that is no position is read as the list of itself alone, as sorts, groups and records. Sorts that
can be written are read from texts and records, in a list or by position, as they are and in order. -/
theorem positions_read_as_lists :
    (∀ (fields : Keyed Json) (items : List Json), fields.Indexes items → fields ≠ [] →
      (Json.object fields).ReadAlike (.array items) ∧ Value.ofJson (.object fields) = Value.ofJson (.array items) ∧
        (∀ (r : Reader) key, r.contribution key (.object fields) = r.contribution key (.array items)) ∧
        ∀ c root settings before key after, Search.build c root settings (before ++ (key, .object fields) :: after) =
          Search.build c root settings (before ++ (key, .array items) :: after)) ∧
      (∀ fields : Keyed Json, (∃ name ∈ fields.names, ∀ n, ¬ IsPosition name n) →
        (Json.object fields).ReadAlike (.array [.object fields]) ∧
          ∀ c root (settings : Settings) before key after, settings.isReserved key = true →
            Search.build c root settings (before ++ (key, .object fields) :: after) =
              Search.build c root settings (before ++ (key, .array [.object fields]) :: after)) ∧
      ∀ (sorts : List SortKey) (items : List Json), (∀ s ∈ sorts, s.IsPlain) →
        List.Forall₂ SortKey.Writes sorts items →
          readSorts (.array items) = .ok sorts ∧
            ∀ fields : Keyed Json, fields.Indexes items → readSorts (.object fields) = .ok sorts := by
  refine ⟨?_, ?_, ?_⟩
  · intro fields items h hne
    have hindexed := h.indexed?_eq hne
    have halike := Json.readAlike_of_indexed? hindexed
    have hvalue := Value.ofJson_of_indexed? hindexed
    exact ⟨halike, hvalue, fun r key => halike.contribution_eq fun _ => hvalue,
      fun c root settings before key after => Search.build_congr halike (fun _ => hvalue) c root before after⟩
  · intro fields h
    have halike := Json.readAlike_singleton (indexed?_eq_none_of_name h)
    refine ⟨halike, ?_⟩
    intro c root settings before key after hkey
    exact Search.build_congr halike (fun hfree => absurd (hkey.symm.trans hfree) (by decide)) c root before after
  · intro sorts items hplain hwrites
    have hlist := SortKey.readSorts_of_writes hplain hwrites
    refine ⟨hlist, ?_⟩
    intro fields h
    cases fields with
    | nil =>
      -- no items, so no sorts: the empty mapping is a record without a name
      obtain ⟨slots, -, hperm, rfl⟩ := h
      have hnone : slots = [] := List.map_eq_nil_iff.1 hperm.nil_eq.symm
      rw [hnone, List.map_nil, List.forall₂_nil_right_iff] at hwrites
      rw [hwrites]
      rfl
    | cons field rest =>
      rw [(Json.readAlike_of_indexed? (h.indexed?_eq (List.cons_ne_nil field rest))).sorts, hlist]

/-! ## Three sorts -/

def sortByName : Json := .object [("dir", .string "asc"), ("name", .string "name")]

def sortBySalary : Json := .object [("name", .string "salary"), ("dir", .string "desc")]

/-- Sorts under the positions ten, two and zero. -/
def placedSorts : Keyed Json := [("10", sortBySalary), ("+02", .string "children_name asc"), ("0", sortByName)]

def listedSorts : List Json := [sortByName, .string "children_name asc", sortBySalary]

/-- A mapping with a key of more than 64 bits. -/
def overfull : Keyed Json := [("0", .string "salary"), ("18446744073709551616", .null), ("name", .string "name")]

theorem positions_read_as_lists_placed :
    placedSorts.Indexes listedSorts ∧ placedSorts ≠ [] ∧
      readSorts (.object placedSorts) = .ok [⟨"name", .asc⟩, ⟨"children_name", .asc⟩, ⟨"salary", .desc⟩] ∧
      (∃ name ∈ overfull.names, ∀ n, ¬ IsPosition name n) ∧
      readSorts (.array [.object overfull]) = .ok [⟨"name", .asc⟩] ∧
      -- a text is no group, so both shapes fail, and with the same text
      ∀ c settings, Search.build c "Person" settings [(settings.orGroupKey, .object placedSorts)] =
        Search.build c "Person" settings [(settings.orGroupKey, .array listedSorts)] := by
  obtain ⟨hlists, hself, hsorts⟩ := positions_read_as_lists
  have hindexes : placedSorts.Indexes listedSorts := by
    refine ⟨[⟨0, "0", sortByName, index?_eq_some.1 (by decide)⟩,
      ⟨2, "+02", .string "children_name asc", index?_eq_some.1 (by decide)⟩,
      ⟨10, "10", sortBySalary, index?_eq_some.1 (by decide)⟩], by simp, ?_, rfl⟩
    exact (List.reverse_perm placedSorts).symm
  have hne : placedSorts ≠ [] := List.cons_ne_nil _ _
  have hplain : ∀ s ∈ [⟨"name", .asc⟩, ⟨"children_name", .asc⟩, (⟨"salary", .desc⟩ : SortKey)], s.IsPlain := by
    have hunspaced : ∀ s ∈ [⟨"name", .asc⟩, ⟨"children_name", .asc⟩, (⟨"salary", .desc⟩ : SortKey)],
        s.name ≠ "" ∧ s.name.toList.all (fun c => !Text.isSpace c) = true := by decide
    exact fun s hs => ⟨(hunspaced s hs).1, Text.unspaced_iff.2 (hunspaced s hs).2⟩
  have hwrites : List.Forall₂ SortKey.Writes [⟨"name", .asc⟩, ⟨"children_name", .asc⟩, ⟨"salary", .desc⟩] listedSorts :=
    .cons (.record rfl rfl) (.cons (.text (s := ⟨"children_name", .asc⟩)) (.cons (.record rfl rfl) .nil))
  have hoverfull : ∃ name ∈ overfull.names, ∀ n, ¬ IsPosition name n := by
    refine ⟨"18446744073709551616", by decide, ?_⟩
    intro n hn
    have hnone : index? "18446744073709551616" = none := by decide
    rw [index?_eq_some.2 hn] at hnone
    cases hnone
  refine ⟨hindexes, hne, (hsorts _ _ hplain hwrites).2 _ hindexes, hoverfull, ?_, ?_⟩
  · rw [← (hself overfull hoverfull).1.sorts]
    rfl
  · intro c settings
    exact (hlists _ _ hindexes hne).2.2.2 c "Person" settings [] settings.orGroupKey []

end Criteria
