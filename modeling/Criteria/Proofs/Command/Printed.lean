import Criteria.Command.Run
import Criteria.Proofs.Json.Written
import Criteria.Proofs.Text.Pieces

/-!
# Printed queries

* `Text.splitOn_lines` — a text with further lines below it has these after its own, if no line break is in them.
* `commentLine` — the line of a bind value; `printable_commentLine`: there is no control character in it.
* `Select.print_exact` — the text of a query is its statement and then one line for each bind value; and queries that
  are printed alike have the same bind values, if none of these is a float.
-/

namespace Criteria

/-! ## Lines -/

namespace Text

variable {s p : String} {ps lines : List String}

/-- A line break behind a text without any is the first. -/
theorem isFirst_newline (h : ¬ Occurs "\n" p) (rest : String) : IsFirst "\n" p rest := by
  intro before after heq
  rw [← String.toList_inj] at heq
  simp only [String.toList_append, List.append_assoc] at heq
  rw [← String.length_toList, ← String.length_toList]
  rcases List.append_eq_append_iff.1 heq with ⟨mid, hbefore, -⟩ | ⟨mid, hp, hmid⟩
  · rw [hbefore, List.length_append]
    exact Nat.le_add_right _ _
  · cases mid with
    | nil => simp [hp]
    | cons c mid =>
      -- another line break would stand in the text before this one
      obtain rfl : '\n' = c := (List.cons.inj hmid).1
      refine absurd ⟨before, String.ofList mid, ?_⟩ h
      rw [← String.toList_inj, hp]
      simp

theorem join_empty_cons (p : String) (ps : List String) : join "" (p :: ps) = p ++ join "" ps := by
  cases ps with
  | nil => simp [join]
  | cons q ps => rw [join_cons (List.cons_ne_nil q ps), String.append_empty]

theorem join_cons_eq {sep : String} (p : String) (lines : List String) :
    join sep (p :: lines) = p ++ join "" (lines.map (sep ++ ·)) := by
  induction lines generalizing p with
  | nil => simp [join]
  | cons l lines ih =>
    rw [join_cons (List.cons_ne_nil l lines), ih l, List.map_cons, join_empty_cons]
    simp only [String.append_assoc]

theorem join_append {sep : String} (h : ps ≠ []) :
    join sep (ps ++ lines) = join sep ps ++ join "" (lines.map (sep ++ ·)) := by
  induction ps with
  | nil => exact absurd rfl h
  | cons p ps ih =>
    cases ps with
    | nil => exact join_cons_eq p lines
    | cons q ps =>
      rw [List.cons_append, join_cons (List.append_ne_nil_of_left_ne_nil (List.cons_ne_nil q ps) lines),
        ih (List.cons_ne_nil q ps), join_cons (List.cons_ne_nil q ps)]
      simp only [String.append_assoc]

/-- A text with further lines below it has these after its own. -/
theorem splitOn_lines (h : ∀ l ∈ lines, ¬ Occurs "\n" l) :
    splitOn "\n" (s ++ join "" (lines.map ("\n" ++ ·))) = splitOn "\n" s ++ lines := by
  have hnewline : "\n" ≠ "" := by decide
  have hs : Pieces "\n" s (splitOn "\n" s) := (splitOn_eq_iff hnewline).1 rfl
  have hnone : ∀ l ∈ splitOn "\n" s ++ lines, ¬ Occurs "\n" l :=
    List.forall_mem_append.2 ⟨hs.not_occurs hnewline, h⟩
  rw [splitOn_eq_iff hnewline]
  nth_rewrite 1 [← hs.join_eq]
  rw [← join_append hs.ne_nil]
  exact pieces_join (by simp [hs.ne_nil]) hnone fun p hp => isFirst_newline (hnone p (List.mem_of_mem_dropLast hp))

theorem not_occurs_newline (h : ∀ c ∈ s.toList, 0x20 ≤ c.toNat) : ¬ Occurs "\n" s := by
  rintro ⟨before, after, rfl⟩
  exact absurd (h '\n' (by simp)) (by decide)

end Text

/-! ## Bind values -/

/-- The line of a bind value, with the number of its placeholder. -/
def commentLine (value : BindValue × Nat) : String := "-- " ++ toString value.2 ++ ": " ++ value.1.json.text

theorem bindLine_eq (value : BindValue × Nat) : bindLine value = "\n" ++ commentLine value := by
  simp only [bindLine, commentLine, ← String.append_assoc]
  rfl

/-- Whatever a bind value is, there is no control character in its line. -/
theorem printable_commentLine (value : BindValue × Nat) : ∀ c ∈ (commentLine value).toList, 0x20 ≤ c.toNat := by
  have hnumber : ∀ c ∈ (toString value.2).toList, 0x20 ≤ c.toNat := by
    intro c hc
    rw [Nat.toString_eq_ofList_toDigits, String.toList_ofList] at hc
    have hdigit := (Number.isDigit_iff.1 (Number.isDigit_of_mem_toDigits hc)).1
    omega
  simp only [commentLine, String.toList_append, List.forall_mem_append]
  exact ⟨⟨⟨Json.printable_of_all rfl, hnumber⟩, Json.printable_of_all rfl⟩, value.1.json.printable_toList_text⟩

/-- Lines tell their values, if these are no floats. -/
theorem commentLine_inj {vs ws : List BindValue} (hvs : ∀ x, .float x ∉ vs) (hws : ∀ x, .float x ∉ ws) {k : Nat}
    (h : (vs.zipIdx k).map commentLine = (ws.zipIdx k).map commentLine) : vs = ws := by
  induction vs generalizing ws k with
  | nil => simpa using h.symm
  | cons v vs ih =>
    cases ws with
    | nil => simp at h
    | cons w ws =>
      simp only [List.mem_cons, not_or] at hvs hws
      simp only [List.zipIdx_cons, List.map_cons, List.cons.injEq, commentLine, String.append_right_inj] at h
      obtain ⟨hline, hlines⟩ := h
      rw [BindValue.json_text_inj (fun x hx => (hvs x).1 hx.symm) (fun x hx => (hws x).1 hx.symm) hline,
        ih (fun x => (hvs x).2) (fun x => (hws x).2) hlines]

/-! ## Queries -/

namespace Select

variable {q q' : Select} {b b' : Backend}

/-- The lines of the bind values of a query. -/
def commentLines (q : Select) : List String := (q.bindings.zipIdx 1).map commentLine

theorem print_text (q : Select) (b : Backend) :
    q.print b .text = q.sql b ++ Text.join "" (q.commentLines.map ("\n" ++ ·)) := by
  have hlines : (q.bindings.zipIdx 1).map bindLine = q.commentLines.map ("\n" ++ ·) := by
    rw [commentLines, List.map_map]
    exact List.map_congr_left fun value _ => bindLine_eq value
  rw [print, hlines]

/-- The lines of a printed query are those of its statement and then one for each bind value. -/
theorem splitOn_print (q : Select) (b : Backend) :
    Text.splitOn "\n" (q.print b .text) = Text.splitOn "\n" (q.sql b) ++ q.commentLines := by
  rw [print_text]
  apply Text.splitOn_lines
  intro l hl
  obtain ⟨value, -, rfl⟩ := List.mem_map.1 hl
  exact Text.not_occurs_newline (printable_commentLine value)

theorem bindings_eq_of_text (hq : ∀ x, .float x ∉ q.bindings) (hq' : ∀ x, .float x ∉ q'.bindings)
    (hsql : q.sql b = q'.sql b') (h : q.print b .text = q'.print b' .text) : q.bindings = q'.bindings := by
  have hlines := congrArg (Text.splitOn "\n") h
  rw [splitOn_print, splitOn_print, hsql] at hlines
  exact commentLine_inj hq hq' (List.append_cancel_left hlines)

theorem eq_of_json (hq : ∀ x, .float x ∉ q.bindings) (hq' : ∀ x, .float x ∉ q'.bindings)
    (h : q.print b .json = q'.print b' .json) : q.sql b = q'.sql b' ∧ q.bindings = q'.bindings := by
  simp only [print, Json.text, String.ofList_inj, Json.chars, Json.fieldChars, List.append_assoc, List.cons_append,
    List.nil_append, List.append_cancel_left_eq, List.cons.injEq, true_and] at h
  obtain ⟨hsql, hrest⟩ := Json.quote_append_inj h
  simp only [List.append_cancel_left_eq, List.cons.injEq, true_and] at hrest
  exact ⟨hsql, BindValue.itemChars_append_inj hq hq' hrest⟩

/-- The text of a query is its statement and then, for each bind value, one line with the number of its placeholder and
its JSON text. There is no control character in such a line, whatever the value is. Queries of one statement whose
texts are the same have the same bind values, if none of these is a float; and so have queries of the same JSON text,
which tells the statement as well. -/
theorem print_exact :
    (∀ (q : Select) (b : Backend),
      q.print b .text = Text.join "\n" (q.sql b :: q.commentLines) ∧
        Text.splitOn "\n" (q.print b .text) = Text.splitOn "\n" (q.sql b) ++ q.commentLines ∧
        q.commentLines.length = q.bindings.length ∧
        ∀ k (hk : k < q.bindings.length), ∃ line, q.commentLines[k]? = some line ∧
          line = "-- " ++ toString (k + 1) ++ ": " ++ q.bindings[k].json.text ∧ ∀ c ∈ line.toList, 0x20 ≤ c.toNat) ∧
    ∀ (q q' : Select) (b b' : Backend), (∀ x, .float x ∉ q.bindings) → (∀ x, .float x ∉ q'.bindings) →
      (q.sql b = q'.sql b' → q.print b .text = q'.print b' .text → q.bindings = q'.bindings) ∧
        (q.print b .json = q'.print b' .json → q.sql b = q'.sql b' ∧ q.bindings = q'.bindings) := by
  refine ⟨fun q b => ⟨?_, splitOn_print q b, by simp [commentLines], fun k hk => ⟨_, ?_, rfl, ?_⟩⟩,
    fun q q' b b' hq hq' => ⟨bindings_eq_of_text hq hq', eq_of_json hq hq'⟩⟩
  · rw [print_text, Text.join_cons_eq]
  · simp [commentLines, commentLine, hk, Nat.add_comm]
  · exact printable_commentLine (q.bindings[k], k + 1)

/-- People of a name that looks like another comment line, and with a salary. -/
def misleading : Select :=
  { table := "people"
    joins := []
    filters := [.compare ⟨"people", "name", .string⟩ .eq (.text "a\n-- 2: 8\x01"),
      .compare ⟨"people", "salary", .integer⟩ .gt (.int 7)]
    orders := []
    groupBy := none }

/-- A line break and a control character in a value are escaped in its line, and no other values are printed alike. -/
theorem print_exact_misleading :
    Text.splitOn "\n" (misleading.print .sqlite .text) =
        [misleading.sql .sqlite, "-- 1: \"a\\n-- 2: 8\\u0001\"", "-- 2: 7"] ∧
      ∀ q : Select, (∀ x, .float x ∉ q.bindings) → q.sql .sqlite = misleading.sql .sqlite →
        q.print .sqlite .text = misleading.print .sqlite .text → q.bindings = [.text "a\n-- 2: 8\x01", .int 7] := by
  refine ⟨?_, fun q hq hsql htext => ?_⟩
  · rw [(print_exact.1 misleading .sqlite).2.1]
    decide
  · have hmisleading : ∀ x, .float x ∉ misleading.bindings := by
      simp [misleading, bindings, Expr.allBindings, Expr.bindings]
    exact (print_exact.2 q misleading .sqlite .sqlite hq hmisleading).1 hsql htext

end Select

end Criteria
