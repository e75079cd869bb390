import Criteria.Proofs.Params.Filled
import Mathlib.Data.List.Forall2

/-!
# Sorts as they are written

* `words_pair` — two texts without spaces, and a space between them, are two words; `trim_of_unspaced` — a text without
  spaces has none at its ends.
* `SortKey.IsPlain`, `SortKey.Writes` — a sort that can be written, and the texts and records that write it.
* `readSorts_of_writes` — a list of such texts and records is read as the sorts in order.
-/

namespace Criteria

/-! ## Texts without spaces -/

namespace Text

/-- No character is a space. -/
def Unspaced (s : String) : Prop := ∀ c ∈ s.toList, isSpace c = false

theorem unspaced_iff {s : String} : Unspaced s ↔ s.toList.all (fun c => !isSpace c) = true := by
  simp [Unspaced]

theorem wordsFrom_append {run cs : List Char} (h : ∀ c ∈ cs, isSpace c = false) (rest : List Char) :
    wordsFrom run (cs ++ rest) = wordsFrom (run ++ cs) rest := by
  induction cs generalizing run with
  | nil => simp
  | cons c cs ih =>
    have hc := h c List.mem_cons_self
    rw [List.cons_append, wordsFrom, if_neg (by simp [hc]), ih fun d hd => h d (List.mem_cons_of_mem _ hd)]
    simp

theorem wordsFrom_unspaced {cs : List Char} (h : ∀ c ∈ cs, isSpace c = false) (hne : cs ≠ []) :
    wordsFrom [] cs = [cs] := by
  have hall : wordsFrom [] (cs ++ []) = wordsFrom ([] ++ cs) [] := wordsFrom_append h []
  rw [List.append_nil, List.nil_append] at hall
  rw [hall, wordsFrom, if_neg hne]

/-- A space cuts two texts without spaces apart. -/
theorem words_pair {s t : String} (hs : Unspaced s) (ht : Unspaced t) (hs' : s ≠ "") (ht' : t ≠ "") :
    words (s ++ " " ++ t) = [s, t] := by
  have hlist : (s ++ " " ++ t).toList = s.toList ++ ' ' :: t.toList := by simp
  have hspace : isSpace ' ' = true := by decide
  have hne : s.toList ≠ [] := by simpa using hs'
  have hne' : t.toList ≠ [] := by simpa using ht'
  rw [words, hlist, wordsFrom_append hs, List.nil_append, wordsFrom, if_pos hspace, if_neg hne,
    wordsFrom_unspaced ht hne']
  simp

theorem dropWhile_of_unspaced {cs : List Char} (h : ∀ c ∈ cs, isSpace c = false) : cs.dropWhile isSpace = cs := by
  cases cs with
  | nil => rfl
  | cons c cs => rw [List.dropWhile_cons_of_neg (by simp [h c List.mem_cons_self])]

theorem trim_of_unspaced {s : String} (h : Unspaced s) : trim s = s := by
  have hreverse : ∀ c ∈ s.toList.reverse, isSpace c = false := fun c hc => h c (List.mem_reverse.1 hc)
  rw [trim, trimChars, dropWhile_of_unspaced h, dropWhile_of_unspaced hreverse, List.reverse_reverse,
    String.ofList_toList]

theorem isBlank_of_unspaced {s : String} (h : Unspaced s) (hne : s ≠ "") : isBlank s = false := by
  obtain ⟨c, hc⟩ := List.exists_mem_of_ne_nil s.toList (by simpa using hne)
  exact isBlank_of_mem hc (h c hc)

end Text

/-! ## Sorts -/

theorem Direction.ofText_name (d : Direction) : ofText d.name = d := by
  cases d <;> decide

theorem Direction.unspaced_name (d : Direction) : Text.Unspaced d.name := by
  cases d <;> exact Text.unspaced_iff.2 (by decide)

theorem Direction.name_ne_empty (d : Direction) : d.name ≠ "" := by
  cases d <;> decide

namespace SortKey

/-- A sort whose name can be written: it is not empty and has no spaces. -/
structure IsPlain (s : SortKey) : Prop where
  named : s.name ≠ ""
  unspaced : Text.Unspaced s.name

/-- A sort is written as its name and its direction, in a text or in a record. -/
inductive Writes (s : SortKey) : Json → Prop
  | text : Writes s (.string (s.name ++ " " ++ s.direction.name))
  | record {record : Keyed Json} (hname : record.get? "name" = some (.string s.name))
    (hdir : record.get? "dir" = some (.string s.direction.name)) : Writes s (.object record)

variable {s : SortKey} {sorts : List SortKey} {item : Json} {items : List Json}

theorem sortItem_of_writes (hs : s.IsPlain) (h : s.Writes item) : sortItem item = .ok (some s) := by
  cases h with
  | text =>
    have hwords := Text.words_pair hs.unspaced s.direction.unspaced_name hs.named s.direction.name_ne_empty
    rw [sortItem, ofText?, hwords]
    simp only [Direction.ofText_name]
  | record hname hdir =>
    simp only [sortItem, sortRecord, hname, hdir, Text.isBlank_of_unspaced hs.unspaced hs.named,
      Text.trim_of_unspaced hs.unspaced, Option.bind_some, Json.string?, Option.map_some, Option.getD_some,
      Direction.ofText_name]
    rfl

/-- A list of texts and records is read as the sorts that they write, in order. -/
theorem readSorts_of_writes (hs : ∀ s ∈ sorts, s.IsPlain) (h : List.Forall₂ Writes sorts items) :
    readSorts (.array items) = .ok sorts := by
  have hitems : collect sortItem items = .ok (sorts.map some) := by
    rw [collect_eq_ok]
    induction h with
    | nil => rfl
    | @cons s item sorts items hwrites hrest ih =>
      rw [List.map_cons, sortItem_of_writes (hs s List.mem_cons_self) hwrites,
        ih fun s hs' => hs s (List.mem_cons_of_mem _ hs')]
      rfl
  rw [readSorts, sortItems, hitems]
  simp

end SortKey

end Criteria
