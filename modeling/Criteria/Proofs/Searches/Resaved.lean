import Criteria.Proofs.Conditions.Spelled
import Criteria.Proofs.Searches.Accessors
import Criteria.Proofs.Searches.Setting
import Mathlib.Data.List.Forall2

/-!
# Values that are written back

* `ConditionKey.Describes` — a key reads as a condition: the attributes, the predicate, and whether there are several
  values; `describes_of_named`, `describes_of_record`: those of named keys always do, those of records not always
  (`Makes.describes_or`).
* `Reader.named_value` — such a key makes the condition again of its value, up to a combinator that joins nothing
  (`Makes.joins`); any other key makes another condition of it, or none (`describes_of_agrees`).
* `compileNodes_congr`, `forall₂_upsert` — nodes that compile alike, one by one, compile alike.
* `Search.Reachable.resaves` — what comes of writing back under a key the value that it reads.
-/

namespace Criteria

/-! ## Keys that read as conditions -/

/-- Another condition asks the same of the same attributes, up to the way in which the tests are joined. -/
structure Condition.Agrees (cond other : Condition) : Prop where
  attributes : other.attributes = cond.attributes
  predicate : other.predicate = cond.predicate
  value : other.value = cond.value

/-- A key reads as a condition: it names the attributes and the predicate, and asks for several values of a predicate
that takes one just if the condition holds a list for it. -/
structure ConditionKey.Describes (k : ConditionKey) (cond : Condition) : Prop where
  attributes : k.attributes = cond.attributes.map AttributePath.name
  predicate : k.predicate = cond.predicate
  several : cond.value.isList = (decide (cond.predicate.arity = .list) || k.several)

theorem AttributePath.map_name_of_resolveAll {c : Catalog} {root : String} {names : List String}
    {paths : List AttributePath} (h : resolveAll c root names = .ok paths) : paths.map AttributePath.name = names := by
  simpa using map_collect h (g := AttributePath.name) (k := id) fun _ _ hname => name_of_resolve hname

theorem AttributePath.resolveAll_map_name {c : Catalog} {root : String} {paths : List AttributePath}
    (h : ∀ a ∈ paths, resolve c root a.name = .ok a) :
    resolveAll c root (paths.map AttributePath.name) = .ok paths := by
  rw [resolveAll, collect_eq_ok, List.map_map]
  exact List.map_congr_left h

namespace Condition

variable {c : Catalog} {root : String} {cond : Condition} {several : Bool}

/-- A value is the shape of its texts where it is a list just if one is asked for. -/
theorem shapes_of_isList {p : Predicate} {v : Value} (h : v.isList = (decide (p.arity = .list) || several)) :
    Value.Shapes p several v.texts v := by
  cases v with
  | scalar s =>
    rw [Value.isList, eq_comm, Bool.or_eq_false_iff, decide_eq_false_iff_not] at h
    exact .scalar (not_or.2 ⟨h.1, by simp [h.2]⟩)
  | list ss =>
    rw [Value.isList, eq_comm, Bool.or_eq_true, decide_eq_true_iff] at h
    exact .list h

/-- The parts of a sound condition make it again, under any key and with any combinator. -/
theorem make_of_sound (h : cond.Sound c root) (hs : several = true → cond.predicate.arity = .single)
    (hlist : cond.value.isList = (decide (cond.predicate.arity = .list) || several)) (key : String) (m : Combinator) :
    make key cond.attributes cond.predicate cond.value m several =
      .ok (some { cond with key := key, combinator := m }) := by
  have hkept : cond.value.kept = cond.value.texts :=
    List.filter_eq_self.2 fun s hs => by simp [h.notBlank s hs]
  have hshape := shapes_of_isList hlist
  rw [make_eq_some_iff hs, hkept]
  refine ⟨h.texts_ne, (not_unsuited_iff hshape).2 ⟨?_, ?_⟩, cond.value, hshape, rfl⟩
  · rw [checkFlag_eq_ok_iff]
    intro harity s hs
    exact Option.isSome_iff_ne_none.1 (h.flags harity s (List.mem_of_head? hs))
  · intro a ha
    rw [checkAttribute_eq_ok_iff]
    exact ⟨h.allows a ha, fun harity s hs => Option.isSome_iff_ne_none.1 (h.coerces harity a ha s hs)⟩

end Condition

namespace Reader

variable {r : Reader} {cond other : Condition} {k : ConditionKey} {key : String} {value : Value} {fields : Keyed Json}

theorem isBlank_of_sound {c : Catalog} {root : String} (h : cond.Sound c root) : cond.value.isBlank = false := by
  obtain ⟨s, hs⟩ := List.exists_mem_of_ne_nil _ h.texts_ne
  rw [Value.isBlank, List.all_eq_false]
  exact ⟨s, hs, by simp [h.notBlank s hs]⟩

/-- A key that reads as a sound condition makes it again of its value. -/
theorem named_value (h : cond.Sound r.catalog r.root) (hk : ConditionKey.parse? key = some k) (hd : k.Describes cond) :
    r.named key cond.value = .ok (some { cond with key := key, combinator := k.combinator }) := by
  have hs : k.several = true → cond.predicate.arity = .single := by
    rw [← hd.predicate]
    exact fun hs => Predicate.takesSeveral_iff.1 (ConditionKey.takesSeveral_of_several hk hs)
  rw [named, if_neg (by rw [isBlank_of_sound h]; exact Bool.false_ne_true), hk]
  dsimp only
  rw [hd.attributes, AttributePath.resolveAll_map_name h.resolves, hd.predicate]
  exact Condition.make_of_sound h hs hd.several key k.combinator

/-- A key that makes a condition that agrees with another one reads as this one too. -/
theorem describes_of_agrees (h : r.named key value = .ok (some other)) (hk : ConditionKey.parse? key = some k)
    (ha : cond.Agrees other) : k.Describes cond := by
  rcases named_eq_ok h with ⟨-, hnone⟩ | ⟨k', paths, -, hk', hpaths, hmade⟩
  · cases hnone
  · obtain rfl : k = k' := Option.some.inj (hk.symm.trans hk')
    obtain ⟨⟨-, hattributes, hp, -⟩, -, hfit, -⟩ := Condition.make_eq_some hmade
    have hlist := Value.isList_of_fit
      (fun hs => Predicate.takesSeveral_iff.1 (ConditionKey.takesSeveral_of_several hk hs)) hfit
    refine ⟨?_, ?_, ?_⟩
    · rw [← ha.attributes, hattributes, AttributePath.map_name_of_resolveAll hpaths]
    · rw [← ha.predicate, hp]
    · rw [← ha.value, ← ha.predicate, hlist, hp]

/-- The key of a named condition reads as it. -/
theorem describes_of_named (h : r.named key value = .ok (some cond)) (hk : ConditionKey.parse? key = some k) :
    k.Describes cond := describes_of_agrees h hk ⟨rfl, rfl, rfl⟩

/-- A record puts its condition under the key of its names, its combinator and its predicate, without an ending. -/
theorem key_of_record (h : r.record fields = .ok (some cond)) :
    cond.key = recordKey (cond.attributes.map AttributePath.name) cond.combinator cond.predicate := by
  obtain ⟨names, read, -, -, ⟨-, hnone⟩ | ⟨value, p, m, paths, -, -, -, -, hpaths, hmade⟩⟩ := record_eq_ok h
  · cases hnone
  · obtain ⟨⟨hkey, hattributes, hp, hm⟩, -⟩ := Condition.make_eq_some hmade
    rw [hkey, hattributes, hp, hm, AttributePath.map_name_of_resolveAll hpaths]

/-- Such a key does not ask for several values, and it shows its combinator where there are several attributes. -/
theorem shows_of_record (h : r.record fields = .ok (some cond)) (hk : ConditionKey.parse? cond.key = some k)
    (hnames : k.attributes = cond.attributes.map AttributePath.name) (hp : k.predicate = cond.predicate) :
    k.several = false ∧ (k.combinator = cond.combinator ∨ cond.attributes.length = 1) := by
  have hspelled : ConditionKey.parse?
      (recordKey k.attributes cond.combinator k.predicate ++ ConditionKey.severalEnding none) = some k := by
    rw [ConditionKey.severalEnding, String.append_empty, hnames, hp, ← key_of_record h, hk]
  obtain ⟨hseveral, hcombinator⟩ := ConditionKey.parse?_recordKey_shows hspelled
  refine ⟨hseveral, hcombinator.imp_right fun hone => ?_⟩
  rw [hnames, List.length_map] at hone
  exact hone.2

/-- The key of a record's condition reads as it just if it names the attributes and the predicate, and the condition
holds no list for a predicate that takes one value: the ending that asks for several is missing. -/
theorem describes_of_record (h : r.record fields = .ok (some cond)) (hk : ConditionKey.parse? cond.key = some k) :
    k.Describes cond ↔ k.attributes = cond.attributes.map AttributePath.name ∧ k.predicate = cond.predicate ∧
      ¬ (cond.predicate.arity = .single ∧ cond.value.isList = true) := by
  have hfits := (sound_of_record h).fits
  constructor
  · intro hd
    refine ⟨hd.attributes, hd.predicate, fun ⟨harity, hlist⟩ => ?_⟩
    have hseveral := hd.several
    rw [(shows_of_record h hk hd.attributes hd.predicate).1, hlist, harity] at hseveral
    cases hseveral
  · rintro ⟨hnames, hp, hone⟩
    refine ⟨hnames, hp, ?_⟩
    rw [(shows_of_record h hk hnames hp).1]
    cases harity : cond.predicate.arity <;> cases hvalue : cond.value <;> simp_all [Value.isList, Value.fits]

/-- The keys that do not read as the conditions made under them are those of some records. -/
theorem Makes.describes_or (h : r.Makes cond) (hk : ConditionKey.parse? cond.key = some k) :
    k.Describes cond ∨ ((∃ fields, r.record fields = .ok (some cond)) ∧
      (k.attributes ≠ cond.attributes.map AttributePath.name ∨ k.predicate ≠ cond.predicate ∨
        (cond.predicate.arity = .single ∧ cond.value.isList = true))) := by
  cases h with
  | named hnamed =>
    rw [(isWritten_of_named hnamed).key_eq] at hk
    exact .inl (describes_of_named hnamed hk)
  | record hrecord =>
    by_cases hd : k.Describes cond
    · exact .inl hd
    · rw [describes_of_record hrecord hk, not_and_or, not_and_or, Classical.not_not] at hd
      exact .inr ⟨⟨_, hrecord⟩, hd⟩

/-- A key that reads as a condition made under it shows how its tests are joined, where there are several. -/
theorem Makes.joins (h : r.Makes cond) (hk : ConditionKey.parse? cond.key = some k) (hd : k.Describes cond) :
    k.combinator = cond.combinator ∨
      (cond.attributes.length = 1 ∧ (cond.predicate.arity = .single → cond.value.texts.length = 1)) := by
  cases h with
  | @named key value _ hnamed =>
    rcases named_eq_ok hnamed with ⟨-, hnone⟩ | ⟨k', paths, -, hk', -, hmade⟩
    · cases hnone
    · obtain ⟨⟨hkey, -, -, hm⟩, -⟩ := Condition.make_eq_some hmade
      rw [hkey] at hk
      obtain rfl : k = k' := Option.some.inj (hk.symm.trans hk')
      exact .inl hm.symm
  | record hrecord =>
    obtain ⟨hseveral, hcombinator⟩ := shows_of_record hrecord hk hd.attributes hd.predicate
    refine hcombinator.imp_right fun hone => ⟨hone, fun harity => ?_⟩
    have hlist := hd.several
    rw [hseveral, harity] at hlist
    cases hvalue : cond.value with
    | scalar s => rfl
    | list ss =>
      rw [hvalue] at hlist
      cases hlist

end Reader

/-! ## Trees that compile alike -/

/-- The nodes compile alike into every join table. -/
def Node.CompilesLike (c : Catalog) (node other : Node) : Prop := ∀ t, compileNode c t node = compileNode c t other

theorem Node.forall₂_compilesLike (c : Catalog) (nodes : List Node) :
    List.Forall₂ (Node.CompilesLike c) nodes nodes := List.forall₂_same.2 fun _ _ _ => rfl

theorem compileNodes_congr {c : Catalog} {nodes others : List Node}
    (h : List.Forall₂ (Node.CompilesLike c) nodes others) (t : JoinTable) :
    compileNodes c t nodes = compileNodes c t others := by
  induction h generalizing t with
  | nil => rfl
  | cons hnode _ ih => simp only [compileNodes, hnode t, ih]

/-- A group compiles as its members do. -/
theorem Node.compilesLike_group {c : Catalog} {members others : List Node}
    (h : List.Forall₂ (Node.CompilesLike c) members others) (m : Combinator) :
    Node.CompilesLike c (.group m members) (.group m others) := by
  intro t
  rw [compileNode, compileNode, compileNodes_congr h]

namespace Junction

variable {c : Catalog} {j : Junction} {key : String} {cond new : Condition}

theorem mem_leaves_of_mem_conditions (h : cond ∈ j.conditions) : cond ∈ Junction.leaves j := by
  induction j with
  | nil => cases h
  | cons node rest ih =>
    rw [leaves, List.mem_append]
    cases node with
    | group m members => exact .inr (ih h)
    | condition old =>
      rcases List.mem_cons.1 h with rfl | h
      · exact .inl List.mem_cons_self
      · exact .inr (ih h)

theorem condition?_eq_some (h : j.condition? key = some cond) : cond.key = key ∧ cond ∈ Junction.leaves j :=
  ⟨by simpa using List.find?_some h, mem_leaves_of_mem_conditions (List.mem_of_find?_eq_some h)⟩

/-- Nothing that compiles changes where a condition is replaced by one that compiles alike. -/
theorem forall₂_upsert (h : j.condition? new.key = some cond)
    (hsame : Node.CompilesLike c (.condition new) (.condition cond)) :
    List.Forall₂ (Node.CompilesLike c) (j.upsert new) j := by
  induction j with
  | nil => cases h
  | cons node rest ih =>
    cases node with
    | group m members => exact .cons (fun _ => rfl) (ih h)
    | condition old =>
      rw [condition?_cons] at h
      rw [upsert]
      split at h
      · cases h
        rw [if_pos ‹_›]
        exact .cons hsame (Node.forall₂_compilesLike c rest)
      · rw [if_neg ‹_›]
        exact .cons (fun _ => rfl) (ih h)

end Junction

namespace Search

variable {c : Catalog} {q : Search} {key : String} {value : Value} {k : ConditionKey} {cond : Condition} {j : Junction}

/-! ## Writing back -/

/-- What comes of writing back under a key the value of its first condition. If the key reads as the condition, the
value goes back into its place, and what compiles stays the same; else it fails, or another test takes the place. -/
theorem putCondition_value {r : Reader} (hj : j.condition? key = some cond)
    (hmade : ∀ cond ∈ Junction.leaves j, r.Makes cond) (hk : ConditionKey.parse? key = some k) :
    (k.Describes cond ∧ ∃ new, putCondition r j key cond.value = .ok new ∧
        ∀ c, List.Forall₂ (Node.CompilesLike c) new j) ∨
      (¬ k.Describes cond ∧ ((∃ e, putCondition r j key cond.value = .error e) ∨
        ∃ new other, putCondition r j key cond.value = .ok new ∧ new.condition? key = some other ∧
          ¬ cond.Agrees other)) := by
  obtain ⟨rfl, hleaf⟩ := Junction.condition?_eq_some hj
  have hmakes := hmade cond hleaf
  have hblank := Reader.isBlank_of_sound hmakes.sound
  by_cases hd : k.Describes cond
  · refine .inl ⟨hd, _, (putCondition_eq_ok hblank).2 ⟨_, Reader.named_value hmakes.sound hk hd, rfl⟩, fun c => ?_⟩
    refine Junction.forall₂_upsert hj fun t => ?_
    rw [compileNode, compileNode]
    have hjoins := hmakes.joins hk hd
    exact Condition.compileCondition_congr (by rfl) (by rfl) (by rfl) hjoins c t
  · refine .inr ⟨hd, ?_⟩
    cases hput : putCondition r j cond.key cond.value with
    | error e => exact .inl ⟨e, rfl⟩
    | ok new =>
      obtain ⟨other, hother, rfl⟩ := (putCondition_eq_ok hblank).1 hput
      refine .inr ⟨_, other, rfl, ?_, fun ha => hd (Reader.describes_of_agrees hother hk ha)⟩
      rw [Junction.condition?_upsert, if_pos (Reader.isWritten_of_named hother).key_eq]

theorem exists_of_get (h : q.get c key = .ok (some value)) :
    q.isAccessor c key = true ∧ ∃ cond, q.base.condition? key = some cond ∧ cond.value = value := by
  unfold get at h
  split at h
  · exact ⟨‹_›, Option.map_eq_some_iff.1 (Except.ok.inj h)⟩
  · cases h

theorem exists_of_orGet {index : Nat} (h : q.orGet c index key = .ok (some value)) :
    q.isAccessor c key = true ∧ ∃ group cond, q.ors[index]? = some group ∧ group.condition? key = some cond ∧
      cond.value = value := by
  unfold orGet at h
  split at h
  · obtain ⟨group, hgroup, hvalue⟩ := Option.bind_eq_some_iff.1 (Except.ok.inj h)
    obtain ⟨cond, hcond, hvalue⟩ := Option.map_eq_some_iff.1 hvalue
    exact ⟨‹_›, group, cond, hgroup, hcond, hvalue⟩
  · cases h

/-- A search whose nodes compile alike has the same query. -/
theorem selectWith_congr {base : Junction} {ors : List Junction}
    (h : List.Forall₂ (Node.CompilesLike c) (base ++ ors.map (Node.group .or)) q.nodes) (options : Options) :
    ({ q with base := base, ors := ors } : Search).selectWith c options = q.selectWith c options := by
  have hevaluate (root : Entity) : evaluate c root base ors q.sorts options =
      evaluate c root q.base q.ors q.sorts options := by
    rw [evaluate, evaluate, compileNodes_congr h, nodes]
  rw [selectWith, selectWith]
  simp only [hevaluate]

/-- Or-groups compile alike, one by one, where one of them is exchanged for a group whose members do. -/
theorem forall₂_set {group new : Junction} (h : List.Forall₂ (Node.CompilesLike c) new group) {ors : List Junction}
    {index : Nat} (hgroup : ors[index]? = some group) :
    List.Forall₂ (Node.CompilesLike c) ((ors.set index new).map (Node.group .or)) (ors.map (Node.group .or)) := by
  induction ors generalizing index with
  | nil => cases hgroup
  | cons first rest ih =>
    cases index with
    | zero =>
      cases hgroup
      exact .cons (Node.compilesLike_group h .or) (Node.forall₂_compilesLike c _)
    | succ index => exact .cons (fun _ => rfl) (ih hgroup)

/-- Reading a value and writing it back. If the key reads as the condition whose value it gives, the value can be
written, and every query stays what it was, failures included; else writing fails and leaves the search as it was, or
the condition of the key asks something else afterwards. The same goes for or-groups. The keys that do not read as their
conditions are those of some records: they read as other attributes or another predicate, or they lack the ending for
several values. -/
theorem Reachable.resaves (s : Schema) (h : Reachable s.catalog q) :
    (q.get s.catalog key = .ok (some value) →
      ∃ k cond, ConditionKey.parse? key = some k ∧ q.base.condition? key = some cond ∧ cond.value = value ∧
        ((k.Describes cond ∧ ∃ base, q.set s.catalog key value = ({ q with base := base }, .ok ()) ∧
            ∀ options, ({ q with base := base } : Search).selectWith s.catalog options =
              q.selectWith s.catalog options) ∨
          (¬ k.Describes cond ∧ ((∃ e, q.set s.catalog key value = (q, .error e)) ∨
            ∃ base other, q.set s.catalog key value = ({ q with base := base }, .ok ()) ∧
              base.condition? key = some other ∧ ¬ cond.Agrees other)))) ∧
      (∀ index, q.orGet s.catalog index key = .ok (some value) →
        ∃ k group cond, ConditionKey.parse? key = some k ∧ q.ors[index]? = some group ∧
          group.condition? key = some cond ∧ cond.value = value ∧
          ((k.Describes cond ∧ ∃ new, q.orSet s.catalog index key value =
                ({ q with ors := q.ors.set index new }, .ok ()) ∧
              ∀ options, ({ q with ors := q.ors.set index new } : Search).selectWith s.catalog options =
                q.selectWith s.catalog options) ∨
            (¬ k.Describes cond ∧ ((∃ e, q.orSet s.catalog index key value = (q, .error e)) ∨
              ∃ new other, q.orSet s.catalog index key value = ({ q with ors := q.ors.set index new }, .ok ()) ∧
                new.condition? key = some other ∧ ¬ cond.Agrees other)))) ∧
      ∀ cond ∈ q.leaves, ∀ k, ConditionKey.parse? cond.key = some k →
        k.Describes cond ∨ ((∃ fields, (q.reader s.catalog).record fields = .ok (some cond)) ∧
          (k.attributes ≠ cond.attributes.map AttributePath.name ∨ k.predicate ≠ cond.predicate ∨
            (cond.predicate.arity = .single ∧ cond.value.isList = true))) := by
  refine ⟨?_, ?_, ?_⟩
  · intro hget
    obtain ⟨haccess, cond, hcond, rfl⟩ := exists_of_get hget
    obtain ⟨k, -, hk, -⟩ := isAccessor_iff.1 haccess
    refine ⟨k, cond, hk, hcond, rfl, ?_⟩
    have hmade : ∀ cond ∈ Junction.leaves q.base, (q.reader s.catalog).Makes cond :=
      fun cond hleaf => h.made cond (mem_leaves.2 (.inl hleaf))
    rcases putCondition_value hcond hmade hk with ⟨hd, new, hput, hsame⟩ | ⟨hd, ⟨e, hput⟩ | ⟨new, other, hput, hother⟩⟩
    · refine .inl ⟨hd, new, set_eq_ok.2 ⟨haccess, new, hput, rfl⟩, ?_⟩
      exact selectWith_congr (List.rel_append (hsame s.catalog) (Node.forall₂_compilesLike s.catalog _))
    · refine .inr ⟨hd, .inl ⟨e, ?_⟩⟩
      rw [set, if_pos haccess, hput]
    · exact .inr ⟨hd, .inr ⟨new, other, set_eq_ok.2 ⟨haccess, new, hput, rfl⟩, hother⟩⟩
  · intro index hget
    obtain ⟨haccess, group, cond, hgroup, hcond, rfl⟩ := exists_of_orGet hget
    obtain ⟨k, -, hk, -⟩ := isAccessor_iff.1 haccess
    refine ⟨k, group, cond, hk, hgroup, hcond, rfl, ?_⟩
    have hmade : ∀ cond ∈ Junction.leaves group, (q.reader s.catalog).Makes cond :=
      fun cond hleaf => h.made cond (mem_leaves.2 (.inr ⟨group, List.mem_of_getElem? hgroup, hleaf⟩))
    have hset {new : Junction} (hput : putCondition (q.reader s.catalog) group key cond.value = .ok new) :=
      orSet_eq_ok.2 ⟨haccess, .inl ⟨group, new, hgroup, hput, rfl⟩⟩
    rcases putCondition_value hcond hmade hk with ⟨hd, new, hput, hsame⟩ | ⟨hd, ⟨e, hput⟩ | ⟨new, other, hput, hother⟩⟩
    · refine .inl ⟨hd, new, hset hput, ?_⟩
      exact selectWith_congr (List.rel_append (Node.forall₂_compilesLike s.catalog _)
        (forall₂_set (hsame s.catalog) hgroup))
    · refine .inr ⟨hd, .inl ⟨e, ?_⟩⟩
      rw [orSet, if_pos haccess, hgroup]
      dsimp only
      rw [hput]
    · exact .inr ⟨hd, .inr ⟨new, other, hset hput, hother⟩⟩
  · intro cond hcond k hk
    exact (h.made cond hcond).describes_or hk

theorem Reachable.resaves_names :
    Reachable family.catalog familySearch ∧
      familySearch.get family.catalog namesKey = .ok (some (.list ["Ernie", "Bert"])) ∧
      ∃ base, familySearch.set family.catalog namesKey (.list ["Ernie", "Bert"]) =
          ({ familySearch with base := base }, .ok ()) ∧
        ∀ options, ({ familySearch with base := base } : Search).selectWith family.catalog options =
          familySearch.selectWith family.catalog options := by
  have hreach := reachable_familySearch
  have hget : familySearch.get family.catalog namesKey = .ok (some (.list ["Ernie", "Bert"])) := by
    rw [get_of_isAccessor (by decide +kernel)]
    exact congrArg Except.ok (by decide +kernel)
  refine ⟨hreach, hget, ?_⟩
  obtain ⟨k, cond, hk, hcond, -, ⟨-, hresaves⟩ | ⟨hd, -⟩⟩ := (hreach.resaves family).1 hget
  · exact hresaves
  · -- the key names what its condition asks, several values included
    have hreads : ConditionKey.parse? namesKey = some ⟨["children_name", "name"], .eq, .or, true⟩ := by decide
    have hasks : (familySearch.base.condition? namesKey).map (fun cond =>
        (cond.attributes.map AttributePath.name, cond.predicate, cond.value.isList)) =
          some (["children_name", "name"], .eq, true) := by decide +kernel
    rw [hcond, Option.map_some, Option.some.injEq, Prod.mk.injEq, Prod.mk.injEq] at hasks
    obtain ⟨hnames, hp, hlist⟩ := hasks
    rw [hreads] at hk
    cases hk
    exact absurd ⟨hnames.symm, hp.symm, by rw [hlist, hp]; rfl⟩ hd

/-- A search for people of one of two names, which a record gives. -/
def twoNamesBuilt : Except SearchError Search :=
  build family.catalog "Person" .default
    [("c", .array [.object [("a", .array [.string "name"]), ("p", .string "eq"),
      ("v", .array [.string "Ernie", .string "Bert"]), ("m", .string "or")]])]

def twoNames : Search := twoNamesBuilt.toOption.get (by decide +kernel)

/-- The key of a record reads both names, and does not take them back. -/
theorem not_set_get : ¬ ∀ (s : Schema) (q : Search) (key : String) (value : Value), Reachable s.catalog q →
    q.get s.catalog key = .ok (some value) →
    ∃ after, q.set s.catalog key value = (after, .ok ()) ∧ after.select s.catalog = q.select s.catalog := by
  intro h
  have hget : twoNames.get family.catalog "name_eq" = .ok (some (.list ["Ernie", "Bert"])) := by
    rw [get_of_isAccessor (by decide +kernel)]
    exact congrArg Except.ok (by decide +kernel)
  have hfails : (twoNames.set family.catalog "name_eq" (.list ["Ernie", "Bert"])).2.isOk = false := by decide +kernel
  obtain ⟨after, hset, -⟩ := h family twoNames "name_eq" _ (Reachable.of_isSome _) hget
  rw [hset] at hfails
  cases hfails

end Search

end Criteria
