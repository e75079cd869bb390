import Criteria.Proofs.Joins.Chains

/-!
# Greedy resolution

What is left of a name at an entity is a column there, or the longest relationship that starts it is followed, for good.

* `Entity.Starts` — a relationship that starts a name; `step?_eq_some_iff`: the longest one is taken.
* `Unshadowed`, `Greedy` — what may not come before a hop, and the hop that is taken.
* `Descends`, `Ends` — hops taken one after the other, and how they come to an end; `exists_ends`: they always do, on
  cycles too; `descend_eq_column_iff`, `descend_eq_stuck_iff`, `descend_eq_missing_iff`: this is what `descend`
  computes.
* `Chained`, `spelled` — hops along declared relationships, and the name that they spell with a column; `descends_iff`:
  the name leads back along the hops just if nothing shadows any of them.
* `resolve_greedy` — what a name resolves to, and why it does not.
-/

namespace Criteria

/-- A relationship of the entity starts the name, with an underscore and the rest behind it. -/
def Entity.Starts (e : Entity) (name relationship rest : String) : Prop :=
  name = relationship ++ "_" ++ rest ∧ (e.relationship? relationship).isSome

namespace AttributePath

variable {c : Catalog} {e : Entity}

/-! ## Cuts -/

theorem mem_cuts {cs : List Char} {cut : List Char × List Char} : cut ∈ cuts cs ↔ cs = cut.1 ++ '_' :: cut.2 := by
  induction cs generalizing cut with
  | nil => simp [cuts]
  | cons head cs ih =>
    obtain ⟨pre, post⟩ := cut
    cases pre with
    | nil => by_cases hhead : head = '_' <;> simp [cuts, hhead, eq_comm]
    | cons first pre =>
      have hcomm : cs = pre ++ '_' :: post ∧ head = first ↔ head = first ∧ cs = pre ++ '_' :: post := and_comm
      by_cases hhead : head = '_' <;> simpa [cuts, hhead, ih] using hcomm

/-- Longer starts come first. -/
theorem pairwise_cuts (cs : List Char) : (cuts cs).Pairwise fun cut cut' => cut'.1.length < cut.1.length := by
  induction cs with
  | nil => simp [cuts]
  | cons head cs ih =>
    have hmap : ((cuts cs).map fun cut => (head :: cut.1, cut.2)).Pairwise
        fun cut cut' => cut'.1.length < cut.1.length := by
      rw [List.pairwise_map]
      simpa using ih
    by_cases hhead : head = '_'
    · rw [cuts, if_pos hhead, List.pairwise_append]
      refine ⟨hmap, by simp, ?_⟩
      intro cut hcut cut' hcut'
      obtain ⟨cut, -, rfl⟩ := List.mem_map.1 hcut
      obtain rfl := List.mem_singleton.1 hcut'
      simp
    · simpa [cuts, hhead] using hmap

theorem toList_cut (pre post : String) : (pre ++ "_" ++ post).toList = pre.toList ++ '_' :: post.toList := by
  simp

/-! ## The longest relationship -/

theorem starts_iff {name relationship rest : String} : e.Starts name relationship rest ↔
    (relationship.toList, rest.toList) ∈ cuts name.toList ∧ (e.relationship? relationship).isSome := by
  rw [mem_cuts, Entity.Starts, ← String.toList_inj, toList_cut]

theorem stepAt?_eq_none {cut : List Char × List Char} :
    stepAt? e cut = none ↔ (e.relationship? (String.ofList cut.1)).isSome = false := by
  simp [stepAt?]

theorem step?_eq_none_iff {name : String} :
    step? e name.toList = none ↔ ∀ relationship rest, ¬ e.Starts name relationship rest := by
  rw [step?, List.findSome?_eq_none_iff]
  constructor
  · intro h relationship rest hstarts
    rw [starts_iff] at hstarts
    have hnone := stepAt?_eq_none.1 (h _ hstarts.1)
    rw [String.ofList_toList, hstarts.2] at hnone
    cases hnone
  · intro h cut hcut
    have hstarts := h (String.ofList cut.1) (String.ofList cut.2)
    rw [starts_iff] at hstarts
    rw [stepAt?_eq_none]
    simpa [hcut] using hstarts

/-- The relationship that is taken starts the name, and no longer one does. -/
theorem starts_of_step? {name : String} {s : Step} (h : step? e name.toList = some s) :
    e.Starts name s.relationship (String.ofList s.rest) ∧
      ∀ other rest, e.Starts name other rest → other.length ≤ s.relationship.length := by
  obtain ⟨longer, cut, shorter, hcuts, hcut, hlonger⟩ := List.findSome?_eq_some_iff.1 h
  obtain ⟨r, hr, rfl⟩ := Option.map_eq_some_iff.1 hcut
  have hsorted := pairwise_cuts name.toList
  rw [hcuts, List.pairwise_append, List.pairwise_cons] at hsorted
  constructor
  · rw [starts_iff, hcuts, hr]
    simp
  · intro other rest hstarts
    rw [starts_iff, hcuts, List.mem_append, List.mem_cons] at hstarts
    obtain ⟨hmem | hmem | hmem, hsome⟩ := hstarts
    · have hnone := hlonger _ hmem
      rw [stepAt?_eq_none] at hnone
      simp [hsome] at hnone
    · simp [← hmem]
    · have hlt := hsorted.2.1.1 _ hmem
      simp only [String.length_toList] at hlt
      simp only [String.length_ofList]
      omega

theorem starts_inj {name relationship relationship' rest rest' : String} (h : e.Starts name relationship rest)
    (h' : e.Starts name relationship' rest') (hlength : relationship.length = relationship'.length) :
    relationship = relationship' ∧ rest = rest' := by
  have hlist := congrArg String.toList (h.1.symm.trans h'.1)
  rw [toList_cut, toList_cut] at hlist
  rw [← String.length_toList, ← String.length_toList] at hlength
  obtain ⟨hpre, hpost⟩ := List.append_inj hlist hlength
  exact ⟨String.toList_inj.1 hpre, String.toList_inj.1 (List.cons.inj hpost).2⟩

theorem step?_eq_some_iff {name relationship rest target : String} :
    step? e name.toList = some ⟨relationship, target, rest.toList⟩ ↔
      (∃ r, e.relationship? relationship = some r ∧ r.target = target) ∧ name = relationship ++ "_" ++ rest ∧
        ∀ other rest', e.Starts name other rest' → other.length ≤ relationship.length := by
  constructor
  · intro h
    obtain ⟨hstarts, hlongest⟩ := starts_of_step? h
    rw [String.ofList_toList] at hstarts
    exact ⟨step?_eq_some h, hstarts.1, hlongest⟩
  · rintro ⟨⟨r, hr, rfl⟩, hname, hlongest⟩
    have hstarts : e.Starts name relationship rest := ⟨hname, by rw [hr]; rfl⟩
    cases hstep : step? e name.toList with
    | none => exact absurd hstarts (step?_eq_none_iff.1 hstep _ _)
    | some s =>
      -- both are longest, so they are the same
      obtain ⟨hstarts', hlongest'⟩ := starts_of_step? hstep
      have hle := hlongest _ _ hstarts'
      have hle' := hlongest' _ _ hstarts
      obtain ⟨hrelationship, hrest⟩ := starts_inj hstarts' hstarts (Nat.le_antisymm hle hle')
      obtain ⟨r', hr', htarget⟩ := step?_eq_some hstep
      obtain ⟨relationship', target', rest'⟩ := s
      simp only at hrelationship hrest hr' htarget
      subst hrelationship hrest
      rw [hr] at hr'
      cases hr'
      rw [← htarget, String.toList_ofList]

end AttributePath

/-! ## Descents -/

/-- The hop follows a relationship that its source declares. -/
def Catalog.Declares (c : Catalog) (hop : Hop) : Prop :=
  ∃ e r, c.entity? hop.source = some e ∧ e.relationship? hop.relationship = some r ∧ r.target = hop.target

/-- The entity declares a column of this type. -/
def Catalog.HasColumn (c : Catalog) (entity column : String) (type : ColumnType) : Prop :=
  ∃ e, c.entity? entity = some e ∧ e.columnType? column = some type

/-- The entity declares neither a column of this name nor a relationship that starts it. -/
def Catalog.IsStuck (c : Catalog) (entity name : String) : Prop :=
  ∃ e, c.entity? entity = some e ∧ e.columnType? name = none ∧ ∀ relationship rest, ¬ e.Starts name relationship rest

namespace AttributePath

variable {c : Catalog}

/-- The source of a hop declares neither a column of the whole name nor a longer relationship that starts it. -/
def Unshadowed (c : Catalog) (name : String) (hop : Hop) : Prop :=
  ∀ e, c.entity? hop.source = some e → e.columnType? name = none ∧
    ∀ other rest, e.Starts name other rest → other.length ≤ hop.relationship.length

/-- The hop that is taken for a name at its source, and what is left of the name. -/
structure Greedy (c : Catalog) (name : String) (hop : Hop) (rest : String) : Prop where
  declares : c.Declares hop
  spells : name = hop.relationship ++ "_" ++ rest
  unshadowed : Unshadowed c name hop

/-- Hops taken one after the other, from a name at one entity to what is left of it at another. -/
inductive Descends (c : Catalog) : String → String → List Hop → String → String → Prop
  | here (entity name : String) : Descends c entity name [] entity name
  | hop {hop : Hop} {hops : List Hop} {name rest last left : String} (h : Greedy c name hop rest)
      (hrest : Descends c hop.target rest hops last left) : Descends c hop.source name (hop :: hops) last left

/-- Where no further hop is taken. -/
inductive Ends (c : Catalog) (entity name : String) : Descent → Prop
  | column {type : ColumnType} (h : c.HasColumn entity name type) : Ends c entity name (.column [] entity name type)
  | stuck (h : c.IsStuck entity name) : Ends c entity name .stuck
  | missing (h : c.entity? entity = none) : Ends c entity name (.missing entity)

theorem Greedy.descend_eq (hc : c.Named) {name rest : String} {hop : Hop} (h : Greedy c name hop rest) :
    descend c hop.source name.toList = (descend c hop.target rest.toList).after hop := by
  obtain ⟨⟨e, r, he, hr, htarget⟩, hname, hfree⟩ := h
  obtain ⟨hcolumn, hlongest⟩ := hfree e he
  have hstep := step?_eq_some_iff.2 ⟨⟨r, hr, htarget⟩, hname, hlongest⟩
  rw [descend]
  simp only [he, String.ofList_toList, hcolumn]
  split
  · rename_i s hs
    rw [hstep] at hs
    cases hs
    rw [hc he]
  · rename_i hnone
    rw [hstep] at hnone
    cases hnone

theorem Ends.descend_eq (hc : c.Named) {entity name : String} {d : Descent} (h : Ends c entity name d) :
    descend c entity name.toList = d := by
  rw [descend]
  cases h with
  | @column type h =>
    obtain ⟨e, he, htype⟩ := h
    simp [he, htype, hc he]
  | stuck h =>
    obtain ⟨e, he, hcolumn, hnone⟩ := h
    rw [← step?_eq_none_iff] at hnone
    simp only [he, String.ofList_toList, hcolumn]
    split
    · rename_i s hs
      rw [hnone] at hs
      cases hs
    · rfl
  | missing h => simp [h]

theorem Descends.descend_eq (hc : c.Named) {entity name last left : String} {hops : List Hop}
    (h : Descends c entity name hops last left) :
    descend c entity name.toList = hops.foldr Descent.after (descend c last left.toList) := by
  induction h with
  | here => rfl
  | hop hgreedy _ ih => rw [hgreedy.descend_eq hc, ih, List.foldr_cons]

/-- Hops can be taken until they come to an end. -/
theorem exists_ends (c : Catalog) (entity : String) (name : List Char) :
    ∃ hops last left d, Descends c entity (String.ofList name) hops last left ∧ Ends c last left d := by
  -- along the recursion of the descent: what is left gets shorter, on a cycle too
  fun_induction descend c entity name with
  | case1 entity name he => exact ⟨[], _, _, _, .here _ _, .missing he⟩
  | case2 entity name e he type htype => exact ⟨[], _, _, _, .here _ _, .column ⟨e, he, htype⟩⟩
  | case3 entity name e he hcolumn s hs hlt ih =>
    obtain ⟨hops, last, left, d, hdescends, hends⟩ := ih
    rw [← String.toList_ofList (l := name)] at hs
    obtain ⟨⟨hname, -⟩, hlongest⟩ := starts_of_step? hs
    obtain ⟨r, hr, htarget⟩ := step?_eq_some hs
    have hgreedy : Greedy c (String.ofList name) ⟨s.relationship, entity, s.target⟩ (String.ofList s.rest) := by
      refine ⟨⟨e, r, he, hr, htarget⟩, hname, ?_⟩
      intro e' he'
      rw [he] at he'
      cases he'
      exact ⟨hcolumn, hlongest⟩
    exact ⟨_, last, left, d, .hop hgreedy hdescends, hends⟩
  | case4 entity name e he hcolumn hnone =>
    rw [← String.toList_ofList (l := name), step?_eq_none_iff] at hnone
    exact ⟨[], _, _, _, .here _ _, .stuck ⟨e, he, hcolumn, hnone⟩⟩

theorem Descends.length_le {entity name last left : String} {hops : List Hop}
    (h : Descends c entity name hops last left) : hops.length ≤ name.toList.count '_' := by
  induction h with
  | here => simp
  | hop hgreedy _ ih =>
    rw [hgreedy.spells, toList_cut, List.count_append, List.count_cons_self, List.length_cons]
    omega

/-! ## What a descent finds -/

@[simp] theorem foldr_after_column (hops hops' : List Hop) (entity column : String) (type : ColumnType) :
    hops.foldr Descent.after (.column hops' entity column type) = .column (hops ++ hops') entity column type := by
  induction hops with
  | nil => rfl
  | cons hop hops ih => simp [ih, Descent.after]

@[simp] theorem foldr_after_stuck (hops : List Hop) : hops.foldr Descent.after .stuck = .stuck := by
  induction hops with
  | nil => rfl
  | cons hop hops ih => simp [ih, Descent.after]

@[simp] theorem foldr_after_missing (hops : List Hop) (entity : String) :
    hops.foldr Descent.after (.missing entity) = .missing entity := by
  induction hops with
  | nil => rfl
  | cons hop hops ih => simp [ih, Descent.after]

/-- A descent is its hops in front of its end. -/
theorem descend_eq_iff (hc : c.Named) {entity name : String} {d : Descent} : descend c entity name.toList = d ↔
    ∃ hops last left d', Descends c entity name hops last left ∧ Ends c last left d' ∧
      d = hops.foldr Descent.after d' := by
  constructor
  · rintro rfl
    obtain ⟨hops, last, left, d', h, hends⟩ := exists_ends c entity name.toList
    rw [String.ofList_toList] at h
    exact ⟨hops, last, left, d', h, hends, by rw [h.descend_eq hc, hends.descend_eq hc]⟩
  · rintro ⟨hops, last, left, d', h, hends, rfl⟩
    rw [h.descend_eq hc, hends.descend_eq hc]

theorem descend_eq_column_iff (hc : c.Named) {entity name last column : String} {hops : List Hop} {type : ColumnType} :
    descend c entity name.toList = .column hops last column type ↔
      Descends c entity name hops last column ∧ c.HasColumn last column type := by
  rw [descend_eq_iff hc]
  constructor
  · rintro ⟨hops', last', left, d, hdescends, hends, heq⟩
    cases hends with
    | column hcolumn =>
      rw [foldr_after_column, List.append_nil] at heq
      cases heq
      exact ⟨hdescends, hcolumn⟩
    | stuck => simp at heq
    | missing => simp at heq
  · rintro ⟨h, hcolumn⟩
    exact ⟨hops, last, column, _, h, .column hcolumn, by simp⟩

theorem descend_eq_stuck_iff (hc : c.Named) {entity name : String} : descend c entity name.toList = .stuck ↔
    ∃ hops last left, Descends c entity name hops last left ∧ c.IsStuck last left := by
  rw [descend_eq_iff hc]
  constructor
  · rintro ⟨hops, last, left, d, hdescends, hends, heq⟩
    cases hends with
    | column => simp at heq
    | stuck hstuck => exact ⟨hops, last, left, hdescends, hstuck⟩
    | missing => simp at heq
  · rintro ⟨hops, last, left, h, hstuck⟩
    exact ⟨hops, last, left, _, h, .stuck hstuck, by simp⟩

theorem descend_eq_missing_iff (hc : c.Named) {entity name missing : String} :
    descend c entity name.toList = .missing missing ↔
      ∃ hops left, Descends c entity name hops missing left ∧ c.entity? missing = none := by
  rw [descend_eq_iff hc]
  constructor
  · rintro ⟨hops, last, left, d, hdescends, hends, heq⟩
    cases hends with
    | column => simp at heq
    | stuck => simp at heq
    | missing hmissing =>
      rw [foldr_after_missing] at heq
      cases heq
      exact ⟨hops, left, hdescends, hmissing⟩
  · rintro ⟨hops, left, h, hmissing⟩
    exact ⟨hops, missing, left, _, h, .missing hmissing, by simp⟩

/-! ## Declared chains -/

/-- Hops along declared relationships, each from where the one before it leads. -/
inductive Chained (c : Catalog) : String → List Hop → String → Prop
  | nil (entity : String) : Chained c entity [] entity
  | cons {hop : Hop} {hops : List Hop} {last : String} (h : c.Declares hop) (hrest : Chained c hop.target hops last) :
      Chained c hop.source (hop :: hops) last

/-- The name that hops and a column spell. -/
def spelled (hops : List Hop) (column : String) : String := Text.join "_" (hops.map Hop.relationship ++ [column])

theorem spelled_cons (hop : Hop) (hops : List Hop) (column : String) :
    spelled (hop :: hops) column = hop.relationship ++ "_" ++ spelled hops column := by
  cases hops <;> rfl

theorem Descends.eq_spelled {entity name last left : String} {hops : List Hop}
    (h : Descends c entity name hops last left) : name = spelled hops left := by
  induction h with
  | here => rfl
  | hop hgreedy _ ih => rw [hgreedy.spells, spelled_cons, ih]

/-- A name leads along hops just if it spells them, they are declared, and nothing shadows any of them. -/
theorem descends_iff {entity name last left : String} {hops : List Hop} :
    Descends c entity name hops last left ↔ name = spelled hops left ∧ Chained c entity hops last ∧
      ∀ i hop, hops[i]? = some hop → Unshadowed c (spelled (hops.drop i) left) hop := by
  constructor
  · intro h
    refine ⟨h.eq_spelled, ?_⟩
    induction h with
    | here => exact ⟨.nil _, by simp⟩
    | @hop hop hops name rest last left hgreedy hrest ih =>
      refine ⟨.cons hgreedy.declares ih.1, ?_⟩
      intro i hop' hi
      -- the first hop has the whole name before it, and every other hop what the first one leaves
      cases i with
      | zero =>
        cases hi
        rw [List.drop_zero, ← (Descends.hop hgreedy hrest).eq_spelled]
        exact hgreedy.unshadowed
      | succ i => exact ih.2 i hop' hi
  · rintro ⟨rfl, hchained, hfree⟩
    induction hchained with
    | nil entity => exact .here _ _
    | @cons hop hops last hdeclares _ ih =>
      refine .hop ⟨hdeclares, spelled_cons hop hops left, hfree 0 hop rfl⟩ (ih ?_)
      intro i hop' hi
      exact hfree (i + 1) hop' hi

/-! ## Resolution -/

theorem resolve_eq_ok_iff (hc : c.Named) {root name : String} {path : AttributePath} :
    resolve c root name = .ok path ↔ path.name = name ∧ path.root = root ∧
      Descends c root name path.hops path.entity path.column ∧ c.HasColumn path.entity path.column path.type := by
  obtain ⟨name', root', hops, entity, column, type⟩ := path
  rw [← descend_eq_column_iff hc, resolve]
  cases hd : descend c root name.toList <;> simp [eq_comm]

theorem resolve_eq_error_iff (hc : c.Named) {root name : String} {e : SearchError} :
    resolve c root name = .error e ↔
      (e = .unresolvedAttribute root name ∧
        ∃ hops last left, Descends c root name hops last left ∧ c.IsStuck last left) ∨
        ∃ missing, e = .unknownEntity missing ∧
          ∃ hops left, Descends c root name hops missing left ∧ c.entity? missing = none := by
  simp only [← descend_eq_stuck_iff hc, ← descend_eq_missing_iff hc, resolve]
  cases hd : descend c root name.toList <;> simp [eq_comm]

/-- A name is resolved by taking hops until they come to an end, which they do: it stands for a column just if they end
at one, and then it is spelled by them and leads along declared relationships; a name that is spelled by such hops leads
back along them just if nothing shadows any of them. Where hops end otherwise, the error says whether an entity is
missing or the name as a whole means nothing. -/
theorem resolve_greedy (s : Schema) (root name : String) :
    ((∃ hops last left d, Descends s.catalog root name hops last left ∧ Ends s.catalog last left d) ∧
      ∀ hops last left, Descends s.catalog root name hops last left → hops.length ≤ name.toList.count '_') ∧
    (∀ path, resolve s.catalog root name = .ok path ↔ path.name = name ∧ path.root = root ∧
      Descends s.catalog root name path.hops path.entity path.column ∧
        s.catalog.HasColumn path.entity path.column path.type) ∧
    (∀ path, resolve s.catalog root name = .ok path → name = spelled path.hops path.column ∧
      Chained s.catalog root path.hops path.entity ∧ s.catalog.HasColumn path.entity path.column path.type) ∧
    (∀ hops last column type, name = spelled hops column → Chained s.catalog root hops last →
      s.catalog.HasColumn last column type →
        (resolve s.catalog root name = .ok ⟨name, root, hops, last, column, type⟩ ↔
          ∀ i hop, hops[i]? = some hop → Unshadowed s.catalog (spelled (hops.drop i) column) hop)) ∧
    ∀ e, resolve s.catalog root name = .error e ↔
      (e = .unresolvedAttribute root name ∧
        ∃ hops last left, Descends s.catalog root name hops last left ∧ s.catalog.IsStuck last left) ∨
      ∃ missing, e = .unknownEntity missing ∧
        ∃ hops left, Descends s.catalog root name hops missing left ∧ s.catalog.entity? missing = none := by
  have hc : s.catalog.Named := s.named_catalog
  refine ⟨⟨?_, fun _ _ _ h => h.length_le⟩, fun _ => resolve_eq_ok_iff hc, ?_, ?_, fun _ => resolve_eq_error_iff hc⟩
  · simpa using exists_ends s.catalog root name.toList
  · intro path h
    obtain ⟨-, -, hdescends, hcolumn⟩ := (resolve_eq_ok_iff hc).1 h
    obtain ⟨hname, hchained, -⟩ := descends_iff.1 hdescends
    exact ⟨hname, hchained, hcolumn⟩
  · intro hops last column type hname hchained hcolumn
    rw [resolve_eq_ok_iff hc, descends_iff]
    simp [hname, hchained, hcolumn]

/-! ## A name that is shadowed -/

/-- Organisations with teams, and with the members of all teams. -/
def teams : Schema :=
  ((Schema.empty.register (((Entity.new "Org" "orgs").hasMany "team" "Team" "org_id").hasMany
    "team_members" "Member" "org_id")).register ((Entity.new "Team" "teams").column "members_count" .integer)).register
      ((Entity.new "Member" "members").column "email" .string)

/-- The longer relationship is followed, though only the shorter one leads to a column. -/
theorem resolve_greedy_teams :
    "team_members_count" = spelled [⟨"team", "Org", "Team"⟩] "members_count" ∧
      Chained teams.catalog "Org" [⟨"team", "Org", "Team"⟩] "Team" ∧
      teams.catalog.HasColumn "Team" "members_count" .integer ∧
      ¬ Unshadowed teams.catalog "team_members_count" ⟨"team", "Org", "Team"⟩ := by
  have hname : "team_members_count" = spelled [⟨"team", "Org", "Team"⟩] "members_count" := by decide
  have hdeclares : teams.catalog.Declares ⟨"team", "Org", "Team"⟩ := ⟨_, ⟨"Team", .hasMany, "org_id"⟩, rfl, rfl, rfl⟩
  have hchained : Chained teams.catalog "Org" [⟨"team", "Org", "Team"⟩] "Team" :=
    Chained.cons hdeclares (.nil "Team")
  have hcolumn : teams.catalog.HasColumn "Team" "members_count" .integer := ⟨_, rfl, rfl⟩
  refine ⟨hname, hchained, hcolumn, fun hfree => ?_⟩
  obtain ⟨-, -, -, hback, -⟩ := resolve_greedy teams "Org" "team_members_count"
  have hresolves := (hback _ _ _ _ hname hchained hcolumn).2 fun i hop hi => by
    cases i with
    | zero =>
      cases hi
      exact hname ▸ hfree
    | succ i => cases hi
  have hfails : (resolve teams.catalog "Org" "team_members_count").isOk = false := by decide +kernel
  rw [hresolves] at hfails
  cases hfails

end AttributePath

end Criteria
