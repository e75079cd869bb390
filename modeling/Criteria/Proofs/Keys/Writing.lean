import Criteria.Params.Contribution
import Criteria.Proofs.Keys.Reading

/-!
# Writing condition keys

A key that is put together from attributes, a predicate and perhaps an ending for several values.

* `Legible` — what the attributes and the predicate must not do for the key to be cut where it was put together;
  `Legible.parts`: these are then the parts of the key.
* `parse?_recordKey` — such a key reads as what it was written from.
* `parse?_recordKey_shows` — any key that reads as its attributes and its predicate shows its ending, and its combinator
  if there is something to join.
-/

namespace Criteria

open Reader (recordKey)

theorem Combinator.underscore_not_mem_name (m : Combinator) : '_' ∉ m.name.toList := by
  cases m <;> decide

namespace ConditionKey

/-- Attributes and a predicate that can be told apart in the key that joins them. -/
structure Legible (attributes : List String) (m : Combinator) (p : Predicate) : Prop where
  ne_nil : attributes ≠ []
  named : "" ∉ attributes
  /-- No attribute has a separator in it. -/
  whole : ∀ a ∈ attributes, ∀ sep : Combinator, ¬ Text.Occurs sep.separator a
  /-- None but the last ends in what a separator begins with. -/
  closed : ∀ a ∈ attributes.dropLast, ∀ (sep : Combinator) before, a ≠ before ++ "_" ++ sep.name
  /-- Two attributes joined by "and" do not make a separator of "or" between them. -/
  unmixed : m = .and → ¬ Text.Occurs (Combinator.separator .or) (Text.join m.separator attributes)
  /-- No predicate of a longer name ends the key. -/
  longest : ∀ stem q, Ends (recordKey attributes m p) stem q → q.name.length ≤ p.name.length

/-- The combinator that a key shows; "and" if there is nothing to join. -/
def shown (attributes : List String) (m : Combinator) : Combinator := if 2 ≤ attributes.length then m else .and

variable {attributes : List String} {m : Combinator} {p : Predicate} {several : Option Combinator}

theorem join_shown (attributes : List String) (m : Combinator) :
    Text.join (shown attributes m).separator attributes = Text.join m.separator attributes := by
  match attributes with
  | [] => rfl
  | [_] => rfl
  | _ :: _ :: _ => rw [shown, if_pos (by simp)]

/-- Only a separator that was written is there to be cut. -/
theorem Legible.shown_eq_or_iff (h : Legible attributes m p) :
    shown attributes m = .or ↔ Text.Occurs (Combinator.separator .or) (Text.join m.separator attributes) := by
  match attributes, h with
  | [], h => exact absurd rfl h.ne_nil
  | [a], h => exact iff_of_false nofun (h.whole a List.mem_cons_self .or)
  | a :: b :: rest, h =>
    rw [shown, if_pos (by simp)]
    cases m with
    | or => exact iff_of_true rfl ⟨a, Text.join (Combinator.separator .or) (b :: rest), rfl⟩
    | and => exact iff_of_false nofun (h.unmixed rfl)

/-- Whatever separator joins the attributes, they are what it cuts. -/
theorem Legible.pieces (h : Legible attributes m p) (sep : Combinator) :
    Text.Pieces sep.separator (Text.join sep.separator attributes) attributes := by
  refine Text.pieces_join h.ne_nil (fun a ha => h.whole a ha sep) fun a ha => ?_
  exact Text.isFirst_between sep.underscore_not_mem_name (h.whole a (List.mem_of_mem_dropLast ha) sep)
    (h.closed a ha sep)

theorem Legible.endsLongest (h : Legible attributes m p) :
    EndsLongest (recordKey attributes m p) (Text.join m.separator attributes) p where
  spelled := rfl
  filled := Text.join_ne_empty h.ne_nil h.named
  longest := h.longest

/-- A key has the parts that it is written from. -/
theorem Legible.parts (h : Legible attributes m p) (hsingle : several.isSome → p.arity = .single) :
    Parts (recordKey attributes m p ++ severalEnding several) (Text.join m.separator attributes) p several
      (shown attributes m) attributes where
  body := ⟨recordKey attributes m p, rfl, h.endsLongest⟩
  cut := by
    rintro rfl sep body
    rw [severalEnding, String.append_empty]
    exact h.endsLongest.toEnds.not_severalEnding sep body
  single := hsingle
  joined := h.shown_eq_or_iff
  pieces := by
    rw [← join_shown]
    exact h.pieces (shown attributes m)
  named := h.named

/-- A key reads as the attributes, the predicate and the ending that it is written from. -/
theorem parse?_recordKey (h : Legible attributes m p) (hsingle : several.isSome → p.arity = .single) :
    parse? (recordKey attributes m p ++ severalEnding several) =
      some ⟨attributes, p, several.getD (shown attributes m), several.isSome⟩ :=
  parse?_eq_some_iff.2 ⟨_, _, _, h.parts hsingle, rfl, rfl⟩

/-- A second attribute that begins like a separator goes on, and a last one that ends like one stays whole. -/
theorem parse?_recordKey_overlapping :
    Legible ["a", "or_b", "c_and"] .or .notEq ∧ Predicate.notEq.arity = .single ∧
      parse? "a_or_or_b_or_c_and_not_eq_all" = some ⟨["a", "or_b", "c_and"], .notEq, .and, true⟩ := by
  have hopen : ∀ a ∈ ["a", "or_b"], ∀ sep ∈ [Combinator.or, .and], Text.beforeEnd? ("_" ++ sep.name) a = none := by
    decide
  have hlongest : EndsLongest "a_or_or_b_or_c_and_not_eq" "a_or_or_b_or_c_and" .notEq :=
    longestEnding?_eq_some.1 (by decide)
  have hlegible : Legible ["a", "or_b", "c_and"] .or .notEq :=
    { ne_nil := by decide
      named := by decide
      whole := fun a ha sep => by cases sep <;> revert a <;> decide
      closed := fun a ha sep before h => by
        rw [String.append_assoc, ← Text.beforeEnd?_eq_some, hopen a ha sep (by cases sep <;> decide)] at h
        cases h
      unmixed := nofun
      longest := hlongest.longest }
  have harity : Predicate.notEq.arity = .single := rfl
  exact ⟨hlegible, harity, @parse?_recordKey _ _ _ (some .and) hlegible fun _ => harity⟩

theorem severalEnding_inj {sep sep' : Combinator} {body body' : String}
    (h : body ++ severalEnding (some sep) = body' ++ severalEnding (some sep')) : sep = sep' := by
  cases sep <;> cases sep'
  · rfl
  · exact absurd h.symm (any_ne_all body' body)
  · exact absurd h (any_ne_all body body')
  · rfl

/-- Two attributes show what joins them. -/
theorem separator_of_join {m' : Combinator} {a b : String} {rest : List String}
    (h : Text.join m.separator (a :: b :: rest) = Text.join m'.separator (a :: b :: rest)) : m = m' := by
  rw [Text.join_cons (List.cons_ne_nil b rest), Text.join_cons (List.cons_ne_nil b rest), String.append_assoc,
    String.append_assoc] at h
  replace h := congrArg String.toList h
  cases m <;> cases m'
  · rfl
  · simp [Combinator.separator, Combinator.name] at h
  · simp [Combinator.separator, Combinator.name] at h
  · rfl

theorem separator_of_join_or_length {m' : Combinator} (hne : attributes ≠ [])
    (h : Text.join m.separator attributes = Text.join m'.separator attributes) :
    m = m' ∨ attributes.length = 1 := by
  cases attributes with
  | nil => exact absurd rfl hne
  | cons a rest =>
    cases rest with
    | nil => exact .inr rfl
    | cons b rest => exact .inl (separator_of_join h)

/-- A key that reads as the attributes and the predicate it is written from has the ending it is written with. It has
the combinator too, unless there is a single attribute and no ending. -/
theorem parse?_recordKey_shows {k : ConditionKey}
    (h : parse? (recordKey k.attributes m k.predicate ++ severalEnding several) = some k) :
    k.several = several.isSome ∧
      (k.combinator = several.getD m ∨ (several = none ∧ k.attributes.length = 1)) := by
  obtain ⟨stem, several', m', hparts, hseveral, hcombinator⟩ := parse?_eq_some_iff.1 h
  have hne : k.attributes ≠ [] := attributes_ne_nil h
  have hends (sep : Combinator) : Ends (recordKey k.attributes sep k.predicate) (Text.join sep.separator k.attributes)
      k.predicate := ⟨rfl, Text.join_ne_empty hne hparts.named⟩
  have hspells : recordKey k.attributes m' k.predicate ++ severalEnding several' =
      recordKey k.attributes m k.predicate ++ severalEnding several := hparts.spells
  cases several with
  | some sep =>
    cases several' with
    | none => exact absurd rfl (hparts.cut rfl sep _)
    | some sep' =>
      obtain rfl := severalEnding_inj hspells
      exact ⟨hseveral, .inl hcombinator⟩
  | none =>
    cases several' with
    | some sep' =>
      rw [severalEnding, String.append_empty] at hspells
      exact absurd hspells.symm ((hends m).not_severalEnding sep' _)
    | none =>
      rw [severalEnding, String.append_empty, String.append_empty] at hspells
      have hjoin := (Ends.inj (hspells ▸ hends m') (hends m) rfl).1
      refine ⟨hseveral, (separator_of_join_or_length hne hjoin).imp ?_ fun hone => ⟨rfl, hone⟩⟩
      exact hcombinator.trans

end ConditionKey

end Criteria
