import Criteria.Text.Cut
import Mathlib.Data.List.Infix

/-!
# Pieces of a text

* `Occurs`, `IsFirst` — a separator in a text, and a place before which it does not start.
* `Pieces` — a text cut at its first separator, then what follows at its first, and so on.
* `Pieces.join_eq`, `Pieces.not_occurs` — the text is its pieces with separators between them, and no piece has one.
* `splitOn_eq_iff` — this is what `splitOn` computes: no separator starts in what it has read (`NoneIn`) at any step.
* `pieces_join` — texts with separators between them are the pieces of that, if each separator is the first there.
* `isFirst_between` — a separator between underscores is the first behind a text that neither has it nor ends like it.
-/

namespace Criteria.Text

/-! ## Occurrences -/

/-- A text stands somewhere in another one. -/
def Occurs (part s : String) : Prop := ∃ before after, s = before ++ part ++ after

theorem occurs_iff {part s : String} : Occurs part s ↔ part.toList <:+: s.toList := by
  constructor
  · rintro ⟨before, after, rfl⟩
    exact ⟨before.toList, after.toList, by simp⟩
  · rintro ⟨before, after, h⟩
    refine ⟨String.ofList before, String.ofList after, ?_⟩
    rw [← String.toList_inj, ← h]
    simp

theorem containsChars_iff {part cs : List Char} : containsChars part cs = true ↔ part <:+: cs := by
  induction cs with
  | nil => simp [containsChars]
  | cons c cs ih => simp [containsChars, ih, List.infix_cons_iff]

theorem contains_iff {part s : String} : contains part s = true ↔ Occurs part s := by
  rw [occurs_iff, contains, containsChars_iff]

instance (part s : String) : Decidable (Occurs part s) := decidable_of_iff _ contains_iff

theorem beforeEnd?_eq_some {ending s before : String} : beforeEnd? ending s = some before ↔ s = before ++ ending := by
  unfold beforeEnd?
  rw [Option.map_eq_some_iff]
  constructor
  · rintro ⟨cs, hcs, rfl⟩
    rw [List.isSuffixOf?_eq_some_iff_append_eq] at hcs
    rw [← String.toList_inj, ← hcs]
    simp
  · rintro rfl
    refine ⟨before.toList, ?_, String.ofList_toList⟩
    rw [List.isSuffixOf?_eq_some_iff_append_eq, String.toList_append]

/-! ## The first separator -/

/-- The separator between two texts is the first: none starts in the text before it. -/
def IsFirst (sep piece rest : String) : Prop :=
  ∀ before after, piece ++ sep ++ rest = before ++ sep ++ after → piece.length ≤ before.length

/-- The pieces of a text between the separators that are each the first in what follows the one before. -/
inductive Pieces (sep : String) : String → List String → Prop
  | last {s : String} (h : ¬ Occurs sep s) : Pieces sep s [s]
  | cut {piece rest : String} {pieces : List String} (hfirst : IsFirst sep piece rest)
      (hrest : Pieces sep rest pieces) : Pieces sep (piece ++ sep ++ rest) (piece :: pieces)

variable {sep s : String} {pieces pieces' : List String}

theorem Pieces.ne_nil (h : Pieces sep s pieces) : pieces ≠ [] := by
  cases h <;> simp

theorem join_cons {p : String} {ps : List String} (h : ps ≠ []) : join sep (p :: ps) = p ++ sep ++ join sep ps := by
  cases ps with
  | nil => exact absurd rfl h
  | cons q ps => rfl

theorem join_ne_empty (hne : pieces ≠ []) (hnamed : "" ∉ pieces) : join sep pieces ≠ "" := by
  cases pieces with
  | nil => exact absurd rfl hne
  | cons p ps =>
    have hp : p ≠ "" := fun h => hnamed (h ▸ List.mem_cons_self)
    cases ps with
    | nil => exact hp
    | cons q ps =>
      rw [join_cons (by simp)]
      intro h
      rw [String.append_assoc, String.append_eq_empty_iff] at h
      exact hp h.1

/-- The text is its pieces with the separator between them. -/
theorem Pieces.join_eq (h : Pieces sep s pieces) : join sep pieces = s := by
  induction h with
  | last => rfl
  | cut _ hrest ih => rw [join_cons hrest.ne_nil, ih]

/-- No piece has the separator in it. -/
theorem Pieces.not_occurs (hsep : sep ≠ "") (h : Pieces sep s pieces) : ∀ p ∈ pieces, ¬ Occurs sep p := by
  induction h with
  | last h =>
    intro p hp
    rwa [List.mem_singleton.1 hp]
  | @cut piece rest pieces hfirst _ ih =>
    intro p hp
    rcases List.mem_cons.1 hp with rfl | hp
    · rintro ⟨before, after, rfl⟩
      -- the separator in the piece would start before the first one
      have hle := hfirst before (after ++ sep ++ rest) (by simp only [String.append_assoc])
      have hpos : sep.length ≠ 0 := by simpa [String.length_eq_zero_iff] using hsep
      simp only [String.length_append] at hle
      omega
    · exact ih p hp

theorem IsFirst.inj {piece piece' rest rest' : String} (h : IsFirst sep piece rest) (h' : IsFirst sep piece' rest')
    (heq : piece ++ sep ++ rest = piece' ++ sep ++ rest') : piece = piece' ∧ rest = rest' := by
  have hlength := Nat.le_antisymm (h _ _ heq) (h' _ _ heq.symm)
  rw [← String.length_toList, ← String.length_toList] at hlength
  rw [← String.toList_inj] at heq
  simp only [String.toList_append, List.append_assoc] at heq
  obtain ⟨hpiece, hrest⟩ := List.append_inj heq hlength
  exact ⟨String.toList_inj.1 hpiece, String.toList_inj.1 (List.append_cancel_left hrest)⟩

/-- A text has one list of pieces. -/
theorem Pieces.unique (h : Pieces sep s pieces) (h' : Pieces sep s pieces') : pieces = pieces' := by
  induction h generalizing pieces' with
  | @last s hnone =>
    cases h' with
    | last => rfl
    | cut => exact absurd ⟨_, _, rfl⟩ hnone
  | @cut piece rest pieces hfirst _ ih =>
    generalize htext : piece ++ sep ++ rest = text at h'
    cases h' with
    | last hnone => exact absurd ⟨_, _, htext.symm⟩ hnone
    | cut hfirst' hrest' =>
      obtain ⟨rfl, rfl⟩ := hfirst.inj hfirst' htext
      rw [ih hrest']

/-! ## Cutting -/

/-- No separator starts in what has been read of a text. -/
def NoneIn (sep read rest : List Char) : Prop :=
  ∀ before after, read ++ rest = before ++ sep ++ after → read.length ≤ before.length

theorem NoneIn.concat {sep read rest : List Char} {c : Char} (h : NoneIn sep read (c :: rest))
    (hstart : ¬ sep.isPrefixOf (c :: rest)) : NoneIn sep (read ++ [c]) rest := by
  intro before after heq
  rw [List.append_assoc] at heq
  rw [List.length_append, List.length_singleton]
  refine Nat.lt_of_le_of_ne (h before after heq) fun hlength => hstart ?_
  rw [List.append_assoc] at heq
  obtain ⟨-, hrest⟩ := List.append_inj heq hlength
  exact List.isPrefixOf_iff_prefix.2 ⟨after, hrest.symm⟩

theorem NoneIn.not_occurs {read : List Char} (hsep : sep ≠ "") (h : NoneIn sep.toList read []) :
    ¬ Occurs sep (String.ofList read) := by
  rw [occurs_iff, String.toList_ofList]
  rintro ⟨before, after, heq⟩
  rw [← List.append_nil read] at heq
  have hle := h before after heq.symm
  have hlength := congrArg List.length heq
  have hpos : sep.toList.length ≠ 0 := by simpa using hsep
  simp only [List.length_append, List.length_nil] at hlength
  omega

theorem NoneIn.isFirst {read rest : List Char} (h : NoneIn sep.toList read (sep.toList ++ rest)) :
    IsFirst sep (String.ofList read) (String.ofList rest) := by
  intro before after heq
  rw [← String.toList_inj] at heq
  simp only [String.toList_append, String.toList_ofList, List.append_assoc] at heq
  rw [String.length_ofList, ← String.length_toList]
  exact h before.toList after.toList (by rw [heq, List.append_assoc])

theorem eq_append_drop {sep rest : List Char} {c : Char} (hne : sep ≠ []) (h : sep.isPrefixOf (c :: rest)) :
    c :: rest = sep ++ rest.drop (sep.length - 1) := by
  obtain ⟨after, hafter⟩ := List.isPrefixOf_iff_prefix.1 h
  cases sep with
  | nil => exact absurd rfl hne
  | cons d ds =>
    obtain ⟨rfl, rfl⟩ := List.cons.inj hafter
    simp

/-- What is cut of a text are its pieces, if no separator starts in what has been read of the first one. -/
theorem pieces_splitFrom (hsep : sep ≠ "") (skip : Nat) (read rest : List Char)
    (h : NoneIn sep.toList read (rest.drop skip)) :
    Pieces sep (String.ofList (read ++ rest.drop skip)) ((splitFrom sep.toList skip read rest).map String.ofList) := by
  induction rest generalizing skip read with
  | nil =>
    rw [List.drop_nil] at h ⊢
    rw [List.append_nil]
    exact .last (h.not_occurs hsep)
  | cons c rest ih =>
    cases skip with
    | succ skip => exact ih skip read h
    | zero =>
      rw [List.drop_zero] at h ⊢
      rw [splitFrom]
      split
      · rename_i hstart
        have hcut : c :: rest = sep.toList ++ rest.drop (sep.toList.length - 1) :=
          eq_append_drop (by simpa using hsep) hstart
        rw [hcut] at h ⊢
        rw [← List.append_assoc, String.ofList_append, String.ofList_append, String.ofList_toList, List.map_cons]
        exact .cut h.isFirst (ih _ [] fun _ _ _ => Nat.zero_le _)
      · rename_i hstart
        have hrest := ih 0 (read ++ [c]) (h.concat hstart)
        rwa [List.drop_zero, List.append_assoc] at hrest

theorem splitOn_eq_iff (hsep : sep ≠ "") : splitOn sep s = pieces ↔ Pieces sep s pieces := by
  have h : Pieces sep s (splitOn sep s) := by
    have hfrom := pieces_splitFrom hsep 0 [] s.toList fun _ _ _ => Nat.zero_le _
    rwa [List.drop_zero, List.nil_append, String.ofList_toList] at hfrom
  constructor
  · rintro rfl
    exact h
  · exact fun h' => h.unique h'

/-! ## Joining -/

/-- Texts with separators between them are cut there again, where each separator is the first. -/
theorem pieces_join (hne : pieces ≠ []) (hlast : ∀ p ∈ pieces, ¬ Occurs sep p)
    (hfirst : ∀ p ∈ pieces.dropLast, ∀ rest, IsFirst sep p rest) : Pieces sep (join sep pieces) pieces := by
  induction pieces with
  | nil => exact absurd rfl hne
  | cons p ps ih =>
    cases ps with
    | nil => exact .last (hlast p List.mem_cons_self)
    | cons q ps =>
      rw [join_cons (by simp)]
      refine .cut (hfirst p (by simp) _) (ih (by simp) ?_ ?_)
      · exact fun p hp => hlast p (List.mem_cons_of_mem _ hp)
      · exact fun p hp => hfirst p (List.mem_cons_of_mem _ hp)

/-- What stands before an underscore goes at least to the first one. -/
theorem eq_or_append_of_append_cons {word pre post post' : List Char} (hword : '_' ∉ word)
    (h : word ++ '_' :: post = pre ++ '_' :: post') : pre = word ∨ ∃ more, pre = word ++ '_' :: more := by
  rcases List.append_eq_append_iff.1 h with ⟨mid, rfl, hmid⟩ | ⟨mid, rfl, hmid⟩ <;> cases mid with
  | nil => simp
  | cons c mid =>
    obtain rfl := (List.cons.inj hmid).1
    simp_all

/-- A separator with underscores at its ends, and nowhere else, is the first behind a text that neither has it nor ends
in what precedes its last underscore. -/
theorem isFirst_between {word piece : String} (hword : '_' ∉ word.toList) (hnone : ¬ Occurs ("_" ++ word ++ "_") piece)
    (hend : ∀ before, piece ≠ before ++ "_" ++ word) (rest : String) : IsFirst ("_" ++ word ++ "_") piece rest := by
  intro before after h
  have hunderscore : "_".toList = ['_'] := rfl
  rw [← String.toList_inj] at h
  simp only [String.toList_append, List.append_assoc, hunderscore, List.singleton_append] at h
  rw [← String.length_toList, ← String.length_toList]
  rcases List.append_eq_append_iff.1 h with ⟨mid, hbefore, -⟩ | ⟨mid, hpiece, hmid⟩
  · rw [hbefore, List.length_append]
    exact Nat.le_add_right _ _
  · cases mid with
    | nil => simp [hpiece]
    | cons c mid =>
      -- another separator would start in the text and end in it, or share an underscore with the one behind it
      exfalso
      simp only [List.cons_append, List.cons.injEq] at hmid
      obtain ⟨rfl, htail⟩ := hmid
      rcases eq_or_append_of_append_cons hword htail with rfl | ⟨more, rfl⟩
      · refine hend before ?_
        rw [← String.toList_inj, hpiece]
        simp
      · refine hnone ⟨before, String.ofList more, ?_⟩
        rw [← String.toList_inj, hpiece]
        simp

end Criteria.Text
