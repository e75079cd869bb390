import Criteria.Predicate.Key
import Criteria.Proofs.Text.Pieces

/-!
# Reading condition keys

A key is a stem, the name of a predicate, and perhaps the ending `_any` or `_all`; the stem is attributes with one
separator between them.

* `Ends`, `EndsLongest` — the predicates that end a key; `longestEnding?_eq_some`: the one of the longest name is taken.
* `Ends.not_severalEnding` — no predicate ends a key that has an ending for several values, so this is always cut;
  `splitPredicate?_eq_some`: what stands before the rest must then take a single value.
* `splitAttributes_eq` — a stem is cut at `_or_` if it has one, and else at `_and_`.
* `Parts` — how a key is made up; `parse?_eq_some_iff`: it is read just if it is made up so, and reads as its parts.
* `parse?_parts` — the same, with what it means for the text of the key and for its attributes.
-/

namespace Criteria

/-- What stands between the attributes of a key. -/
def Combinator.separator (m : Combinator) : String := "_" ++ m.name ++ "_"

namespace ConditionKey

/-- The end of a key that asks for any or for all of several values; other keys have none. -/
def severalEnding : Option Combinator → String
  | some .or => "_any"
  | some .and => "_all"
  | none => ""

variable {key stem body : String} {p q : Predicate}

/-! ## Predicates at the end -/

/-- A key is a stem, an underscore and the name of a predicate. -/
structure Ends (key stem : String) (p : Predicate) : Prop where
  spelled : key = stem ++ "_" ++ p.name
  filled : stem ≠ ""

/-- No predicate of a longer name ends the key. -/
structure EndsLongest (key stem : String) (p : Predicate) : Prop extends Ends key stem p where
  longest : ∀ stem' q, Ends key stem' q → q.name.length ≤ p.name.length

theorem stem?_eq_some : stem? key p = some stem ↔ Ends key stem p := by
  unfold stem?
  constructor
  · intro h
    split at h
    · rename_i found hfound
      split at h
      · cases h
      · rename_i hfilled
        cases h
        rw [Text.beforeEnd?_eq_some] at hfound
        exact ⟨by rw [hfound, String.append_assoc], hfilled⟩
    · cases h
  · rintro ⟨hspelled, hfilled⟩
    rw [String.append_assoc] at hspelled
    rw [Text.beforeEnd?_eq_some.2 hspelled]
    exact if_neg hfilled

theorem mem_endings : (stem, p) ∈ endings key ↔ Ends key stem p := by
  simp [endings, stem?_eq_some, Predicate.mem_all]

theorem Ends.inj {stem' : String} (h : Ends key stem p) (h' : Ends key stem' q)
    (hlength : p.name.length = q.name.length) : stem = stem' ∧ p = q := by
  have hlist := congrArg String.toList (h.spelled.symm.trans h'.spelled)
  simp only [String.toList_append] at hlist
  rw [← String.length_toList, ← String.length_toList] at hlength
  obtain ⟨hstem, hname⟩ := List.append_inj' hlist hlength
  refine ⟨?_, Predicate.name_injective (String.toList_inj.1 hname)⟩
  exact String.toList_inj.1 (List.append_cancel_right hstem)

/-- The last of the longest endings is kept. -/
theorem foldl_longer (old : String × Predicate) (more : List (String × Predicate)) :
    ∃ best, more.foldl longer (some old) = some best ∧ best ∈ old :: more ∧
      ∀ x ∈ old :: more, x.2.name.length ≤ best.2.name.length := by
  induction more generalizing old with
  | nil => exact ⟨old, rfl, by simp, by simp⟩
  | cons next more ih =>
    rw [List.foldl_cons, longer]
    split
    · rename_i hlt
      obtain ⟨best, hbest, hmem, hlongest⟩ := ih old
      refine ⟨best, hbest, by simp only [List.mem_cons] at hmem ⊢; tauto, ?_⟩
      intro x hx
      have hold := hlongest old List.mem_cons_self
      simp only [List.mem_cons] at hx
      rcases hx with rfl | rfl | hx
      · exact hold
      · omega
      · exact hlongest x (List.mem_cons_of_mem _ hx)
    · rename_i hge
      obtain ⟨best, hbest, hmem, hlongest⟩ := ih next
      refine ⟨best, hbest, List.mem_cons_of_mem _ hmem, ?_⟩
      intro x hx
      have hnext := hlongest next List.mem_cons_self
      rcases List.mem_cons.1 hx with rfl | hx
      · omega
      · exact hlongest x hx

theorem longestEnding?_eq_some : longestEnding? key = some (stem, p) ↔ EndsLongest key stem p := by
  unfold longestEnding?
  cases hends : endings key with
  | nil =>
    constructor
    · intro h
      cases h
    · intro h
      have hmem := mem_endings.2 h.toEnds
      rw [hends] at hmem
      cases hmem
  | cons first more =>
    rw [List.foldl_cons, longer]
    obtain ⟨⟨stem', q⟩, hbest, hmem, hlongest⟩ := foldl_longer first more
    rw [← hends] at hmem hlongest
    have hbestEnds := mem_endings.1 hmem
    rw [hbest]
    constructor
    · intro h
      cases h
      exact ⟨hbestEnds, fun stem' q h => hlongest _ (mem_endings.2 h)⟩
    · intro h
      -- both are longest, so they are the same
      have hle := h.longest _ _ hbestEnds
      have hle' := hlongest _ (mem_endings.2 h.toEnds)
      obtain ⟨rfl, rfl⟩ := hbestEnds.inj h.toEnds (Nat.le_antisymm hle hle')
      rfl

/-! ## Endings for several values -/

theorem not_isSuffix_severalEnding (p : Predicate) (m : Combinator) :
    ¬ ("_" ++ p.name).toList <:+ (severalEnding (some m)).toList ∧
      ¬ (severalEnding (some m)).toList <:+ ("_" ++ p.name).toList := by
  cases p <;> cases m <;> decide

/-- A key that ends with a predicate does not ask for several values. -/
theorem Ends.not_severalEnding (h : Ends key stem p) (m : Combinator) (body : String) :
    key ≠ body ++ severalEnding (some m) := by
  intro hkey
  have hname : ("_" ++ p.name).toList <:+ key.toList := ⟨stem.toList, by rw [h.spelled]; simp⟩
  have hending : (severalEnding (some m)).toList <:+ key.toList := ⟨body.toList, by rw [hkey]; simp⟩
  obtain ⟨hname', hending'⟩ := not_isSuffix_severalEnding p m
  rcases List.suffix_or_suffix_of_suffix hname hending with hsuffix | hsuffix
  · exact hname' hsuffix
  · exact hending' hsuffix

theorem any_ne_all (body body' : String) : body ++ "_any" ≠ body' ++ "_all" := by
  intro h
  have hlast := congrArg (fun s => s.toList.getLast?) h
  simp at hlast

theorem suffixed?_eq_some {ending : String} : suffixed? ending key = some (stem, p) ↔
    ∃ body, key = body ++ ending ∧ EndsLongest body stem p ∧ p.arity = .single := by
  unfold suffixed?
  constructor
  · intro h
    split at h
    · rename_i body hbody
      rw [Text.beforeEnd?_eq_some] at hbody
      split at h
      · rename_i stem' q hlongest
        rw [longestEnding?_eq_some] at hlongest
        split at h
        · rename_i htakes
          cases h
          exact ⟨body, hbody, hlongest, beq_iff_eq.1 htakes⟩
        · cases h
      · cases h
    · cases h
  · rintro ⟨body, hbody, hlongest, harity⟩
    rw [Text.beforeEnd?_eq_some.2 hbody]
    simp only [longestEnding?_eq_some.2 hlongest]
    exact if_pos (beq_iff_eq.2 harity)

theorem suffixed?_eq_none {ending : String} (h : ∀ body, key ≠ body ++ ending) : suffixed? ending key = none := by
  cases hfound : suffixed? ending key with
  | none => rfl
  | some found =>
    obtain ⟨body, hbody, -⟩ := suffixed?_eq_some.1 hfound
    exact absurd hbody (h body)

/-- How the end of a key is made up. -/
structure Split (key stem : String) (p : Predicate) (several : Option Combinator) : Prop where
  /-- What stands before the ending for several values ends with the predicate. -/
  body : ∃ body, key = body ++ severalEnding several ∧ EndsLongest body stem p
  /-- The ending is cut from every key that has it. -/
  cut : several = none → ∀ m body, key ≠ body ++ severalEnding (some m)
  single : several.isSome → p.arity = .single

theorem splitPredicate?_eq_some {several : Option Combinator} :
    splitPredicate? key = some (stem, p, several) ↔ Split key stem p several := by
  unfold splitPredicate?
  constructor
  · intro h
    split at h
    · rename_i hany
      cases h
      obtain ⟨body, hbody, hlongest, harity⟩ := suffixed?_eq_some.1 hany
      exact ⟨⟨body, hbody, hlongest⟩, nofun, fun _ => harity⟩
    · split at h
      · rename_i hall
        cases h
        obtain ⟨body, hbody, hlongest, harity⟩ := suffixed?_eq_some.1 hall
        exact ⟨⟨body, hbody, hlongest⟩, nofun, fun _ => harity⟩
      · obtain ⟨⟨stem', q⟩, hlongest, heq⟩ := Option.map_eq_some_iff.1 h
        cases heq
        rw [longestEnding?_eq_some] at hlongest
        exact ⟨⟨key, by simp [severalEnding], hlongest⟩, fun _ => hlongest.toEnds.not_severalEnding, nofun⟩
  · rintro ⟨⟨body, hbody, hlongest⟩, hcut, harity⟩
    cases several with
    | none =>
      have hany : suffixed? "_any" key = none := suffixed?_eq_none (hcut rfl .or)
      have hall : suffixed? "_all" key = none := suffixed?_eq_none (hcut rfl .and)
      rw [severalEnding, String.append_empty] at hbody
      rw [hany, hall, hbody, longestEnding?_eq_some.2 hlongest]
      rfl
    | some m =>
      have hfound : suffixed? (severalEnding (some m)) key = some (stem, p) :=
        suffixed?_eq_some.2 ⟨body, hbody, hlongest, harity rfl⟩
      cases m with
      | or =>
        rw [severalEnding] at hfound
        rw [hfound]
      | and =>
        rw [severalEnding] at hfound hbody
        have hany : suffixed? "_any" key = none :=
          suffixed?_eq_none fun body' hkey => any_ne_all body' body (hkey.symm.trans hbody)
        rw [hany, hfound]

/-! ## Attributes of a stem -/

theorem separator_ne_empty (m : Combinator) : m.separator ≠ "" := by
  cases m <;> decide

/-- A stem is cut at the separators of "or" if it has one, and else at those of "and". -/
theorem splitAttributes_eq {m : Combinator} (hm : m = .or ↔ Text.Occurs (Combinator.separator .or) stem) :
    splitAttributes stem = (Text.splitOn m.separator stem, m) := by
  rw [← Text.contains_iff] at hm
  unfold splitAttributes
  cases m with
  | or => exact if_pos (hm.1 rfl)
  | and =>
    refine (if_neg fun hseparated => nomatch hm.2 hseparated).trans ?_
    split
    · rfl
    · -- without a separator at all, the stem is the only piece between those of "and"
      rename_i hnone
      have hlast : Text.Pieces (Combinator.separator .and) stem [stem] :=
        .last fun hseparated => hnone (Text.contains_iff.2 hseparated)
      rw [(Text.splitOn_eq_iff (separator_ne_empty .and)).2 hlast]

theorem splitAttributes_eq_iff {attributes : List String} {m : Combinator} : splitAttributes stem = (attributes, m) ↔
    (m = .or ↔ Text.Occurs (Combinator.separator .or) stem) ∧ Text.Pieces m.separator stem attributes := by
  constructor
  · intro h
    obtain ⟨m', hm'⟩ : ∃ m' : Combinator, m' = .or ↔ Text.Occurs (Combinator.separator .or) stem := by
      by_cases hseparated : Text.Occurs (Combinator.separator .or) stem
      · exact ⟨.or, iff_of_true rfl hseparated⟩
      · exact ⟨.and, iff_of_false nofun hseparated⟩
    rw [splitAttributes_eq hm', Prod.mk.injEq] at h
    obtain ⟨hpieces, rfl⟩ := h
    exact ⟨hm', (Text.splitOn_eq_iff (separator_ne_empty _)).1 hpieces⟩
  · rintro ⟨hm, hpieces⟩
    rw [splitAttributes_eq hm, (Text.splitOn_eq_iff (separator_ne_empty m)).2 hpieces]

/-! ## Whole keys -/

/-- How a key is made up. -/
structure Parts (key stem : String) (p : Predicate) (several : Option Combinator) (m : Combinator)
    (attributes : List String) : Prop extends Split key stem p several where
  joined : m = .or ↔ Text.Occurs (Combinator.separator .or) stem
  pieces : Text.Pieces m.separator stem attributes
  named : "" ∉ attributes

/-- A key is read as its parts, and only if it has such parts. -/
theorem parse?_eq_some_iff {k : ConditionKey} : parse? key = some k ↔
    ∃ stem several m, Parts key stem k.predicate several m k.attributes ∧ k.several = several.isSome ∧
      k.combinator = several.getD m := by
  constructor
  · intro h
    obtain ⟨stem, several, hsplit, hattributes, hnamed, hcombinator, hseveral⟩ := parse?_eq_some h
    obtain ⟨hjoined, hpieces⟩ := splitAttributes_eq_iff.1 (Prod.ext hattributes.symm rfl)
    exact ⟨stem, several, _, ⟨splitPredicate?_eq_some.1 hsplit, hjoined, hpieces, hnamed⟩, hseveral, hcombinator⟩
  · rintro ⟨stem, several, m, hparts, hseveral, hcombinator⟩
    have hsplit := splitPredicate?_eq_some.2 hparts.toSplit
    have hattributes := splitAttributes_eq_iff.2 ⟨hparts.joined, hparts.pieces⟩
    have hnamed : ¬ k.attributes.contains "" = true := by simpa using hparts.named
    unfold parse?
    simp only [hsplit, hattributes, if_neg hnamed, ← hcombinator, ← hseveral]

/-- The attributes, the predicate and the ending, each behind its separator, spell the key. -/
theorem Parts.spells {several : Option Combinator} {m : Combinator} {attributes : List String}
    (h : Parts key stem p several m attributes) :
    Text.join m.separator attributes ++ "_" ++ p.name ++ severalEnding several = key := by
  obtain ⟨body, hkey, hlongest⟩ := h.body
  rw [h.pieces.join_eq, hkey, hlongest.spelled]

/-- A key reads just if it is made up of a stem, a predicate and perhaps an ending for several values. It reads as what
it is made up of, which spells the key again, and the separator between the attributes is in none of them. -/
theorem parse?_parts (key : String) :
    ((parse? key).isSome ↔ ∃ stem p several m attributes, Parts key stem p several m attributes) ∧
      ∀ stem p several m attributes, Parts key stem p several m attributes →
        parse? key = some ⟨attributes, p, several.getD m, several.isSome⟩ ∧
        Text.join m.separator attributes ++ "_" ++ p.name ++ severalEnding several = key ∧
        ∀ a ∈ attributes, ¬ Text.Occurs m.separator a := by
  have hparse : ∀ stem p several m attributes, Parts key stem p several m attributes →
      parse? key = some ⟨attributes, p, several.getD m, several.isSome⟩ :=
    fun stem _ several m _ hparts => parse?_eq_some_iff.2 ⟨stem, several, m, hparts, rfl, rfl⟩
  refine ⟨⟨?_, ?_⟩, ?_⟩
  · intro h
    obtain ⟨k, hk⟩ := Option.isSome_iff_exists.1 h
    obtain ⟨stem, several, m, hparts, -⟩ := parse?_eq_some_iff.1 hk
    exact ⟨stem, k.predicate, several, m, k.attributes, hparts⟩
  · rintro ⟨stem, p, several, m, attributes, hparts⟩
    rw [hparse _ _ _ _ _ hparts]
    rfl
  · intro stem p several m attributes hparts
    exact ⟨hparse _ _ _ _ _ hparts, hparts.spells, hparts.pieces.not_occurs (separator_ne_empty m)⟩

/-- Of two separators that share an underscore, the first is cut; of two predicates, the longer is taken. -/
theorem parse?_parts_overlapping :
    Parts "a_or_or_b_not_eq_any" "a_or_or_b" .notEq (some .or) .or ["a", "or_b"] ∧
      parse? "a_or_or_b_not_eq_any" = some ⟨["a", "or_b"], .notEq, .or, true⟩ := by
  have hsplit : Split "a_or_or_b_not_eq_any" "a_or_or_b" .notEq (some .or) := splitPredicate?_eq_some.1 (by decide)
  have hattributes : splitAttributes "a_or_or_b" = (["a", "or_b"], .or) := by decide
  obtain ⟨hjoined, hpieces⟩ := splitAttributes_eq_iff.1 hattributes
  have hparts : Parts "a_or_or_b_not_eq_any" "a_or_or_b" .notEq (some .or) .or ["a", "or_b"] :=
    ⟨hsplit, hjoined, hpieces, by decide⟩
  exact ⟨hparts, ((parse?_parts "a_or_or_b_not_eq_any").2 _ _ _ _ _ hparts).1⟩

end ConditionKey

end Criteria
