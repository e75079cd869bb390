import Criteria.BindValue
import Criteria.Json.Token
import Criteria.Proofs.Number.Literals

/-!
# Written values

* `Json.Escapes` — the ways in which a character of a text is written: as itself, by a letter or by its number.
* `Json.printable_chars` — no control character stands in the text of a value.
* `Piece.exists_read?` — an escaped text is read, up to its closing quote, as the text that it stands for.
* `BindValue.chars_append_inj` — a text, integer or truth value and what follows it, which goes on with no word, are
  told from the characters of both; `BindValue.itemChars_append_inj`: so is a list of them.
-/

namespace Criteria

open Number (isMark Writes)

/-! ## Characters -/

namespace Json

/-- How a character of a text is written: a backslash and a letter, a backslash and the number of a control character,
or the character itself, which is then neither a control character nor a quote nor a backslash. -/
inductive Escapes : Char → List Char → Prop
  | letter {c d : Char} (h : Piece.escaped? d = some c) (hd : 0x20 ≤ d.toNat) : Escapes c ['\\', d]
  | number {c : Char} (h : c.toNat < 0x20) :
    Escapes c ['\\', 'u', '0', '0', hexDigit (c.toNat / 16), hexDigit (c.toNat % 16)]
  | itself {c : Char} (hquote : c ≠ '"') (hbackslash : c ≠ '\\') (h : 0x20 ≤ c.toNat) : Escapes c [c]

theorem escapes_escape (c : Char) : Escapes c (escape c) := by
  unfold escape
  iterate 7
    split
    · rename_i h
      rw [h]
      exact .letter rfl (by decide)
  split
  · exact .number ‹_›
  · rename_i hquote hbackslash _ _ _ _ _ h
    exact .itself hquote hbackslash (Nat.not_lt.1 h)

theorem printable_hexDigit : ∀ n < 16, 0x20 ≤ (hexDigit n).toNat := by
  decide

theorem hexValue?_hexDigit : ∀ n < 16, Piece.hexValue? (hexDigit n) = some n := by
  decide

variable {c : Char} {cs : List Char}

theorem Escapes.printable (h : Escapes c cs) : ∀ d ∈ cs, 0x20 ≤ d.toNat := by
  cases h with
  | letter _ hd => simpa using hd
  | number h =>
    have hhigh := printable_hexDigit (c.toNat / 16) (by omega)
    have hlow := printable_hexDigit (c.toNat % 16) (by omega)
    simp [hhigh, hlow]
  | itself _ _ h => simpa using h

theorem printable_of_all (h : (cs.all fun c => 0x20 ≤ c.toNat) = true) : ∀ c ∈ cs, 0x20 ≤ c.toNat := by
  simpa using h

theorem printable_of_isMark (h : isMark c = true) : 0x20 ≤ c.toNat := by
  rcases Number.isMark_iff.1 h with h | rfl | rfl
  · omega
  · decide
  · decide

theorem printable_text (n : JsonNumber) : ∀ c ∈ n.text.toList, 0x20 ≤ c.toNat := by
  intro c hc
  cases n with
  | integer n => exact printable_of_isMark ((Number.writes_toString n).isMark_of_mem c hc)
  | real x =>
    rcases Number.Binary64.mem_exponentText hc with h | rfl | rfl
    · exact printable_of_isMark h
    · decide
    · decide

theorem printable_quote (s : String) : ∀ c ∈ quote s, 0x20 ≤ c.toNat := by
  intro c hc
  rcases List.mem_cons.1 hc with rfl | hc
  · decide
  rcases List.mem_append.1 hc with hc | hc
  · obtain ⟨d, -, hd⟩ := List.mem_flatMap.1 hc
    exact (escapes_escape d).printable c hd
  · rw [List.mem_singleton.1 hc]
    decide

mutual

/-- No control character stands in the text of a value. -/
theorem printable_chars : (value : Json) → ∀ c ∈ value.chars, 0x20 ≤ c.toNat
  | .null => printable_of_all rfl
  | .bool true => printable_of_all rfl
  | .bool false => printable_of_all rfl
  | .number n => printable_text n
  | .string s => printable_quote s
  | .array items => by
    rw [chars, List.forall_mem_cons, List.forall_mem_append]
    exact ⟨by decide, printable_itemChars items, printable_of_all rfl⟩
  | .object fields => by
    rw [chars, List.forall_mem_cons, List.forall_mem_append]
    exact ⟨by decide, printable_fieldChars fields, printable_of_all rfl⟩

theorem printable_itemChars : (items : List Json) → ∀ c ∈ itemChars items, 0x20 ≤ c.toNat
  | [] => nofun
  | [item] => printable_chars item
  | item :: next :: rest => by
    rw [itemChars, List.forall_mem_append, List.forall_mem_cons]
    exact ⟨printable_chars item, by decide, printable_itemChars (next :: rest)⟩

theorem printable_fieldChars : (fields : List (String × Json)) → ∀ c ∈ fieldChars fields, 0x20 ≤ c.toNat
  | [] => nofun
  | [(name, value)] => by
    rw [fieldChars, List.forall_mem_append, List.forall_mem_cons]
    exact ⟨printable_quote name, by decide, printable_chars value⟩
  | (name, value) :: next :: rest => by
    rw [fieldChars, List.forall_mem_append, List.forall_mem_cons, List.forall_mem_append, List.forall_mem_cons]
    exact ⟨printable_quote name, by decide, printable_chars value, by decide, printable_fieldChars (next :: rest)⟩

end

/-- The text of a value is a single line. -/
theorem printable_toList_text (value : Json) : ∀ c ∈ value.text.toList, 0x20 ≤ c.toNat := by
  rw [text, String.toList_ofList]
  exact printable_chars value

end Json

/-! ## Quoted texts -/

namespace Piece

open Json (Escapes escape quote escapes_escape hexValue?_hexDigit)

variable {c : Char} {cs rest : List Char}

theorem assemble?_unit {n : Nat} (h : n < 0xD800) (pieces : List Piece) :
    assemble? (.unit n :: pieces) = (assemble? pieces).map (Char.ofNat n :: ·) := by
  have hlow : ¬ 0xD800 ≤ n := by omega
  rcases pieces with _ | ⟨_ | low, pieces⟩
  all_goals
    conv_lhs => unfold assemble?
    simp [hlow]

/-- A character that is written for a text is read as one piece, which stands for it. -/
theorem read?_escapes (h : Escapes c cs) : ∃ piece,
    (∀ rest, read? (cs ++ rest) = (read? rest).map fun read => (piece :: read.1, read.2)) ∧
      ∀ pieces, assemble? (piece :: pieces) = (assemble? pieces).map (c :: ·) := by
  cases h with
  | @letter d h hd =>
    refine ⟨.char c, fun rest => ?_, fun pieces => by rw [assemble?]⟩
    have hunit : d ≠ 'u' := by
      rintro rfl
      cases h
    simp only [List.cons_append, List.nil_append]
    rw [read?, h]
    · cases read? rest <;> rfl
    · exact fun _ _ _ _ _ hd => absurd hd hunit
  | number h =>
    refine ⟨.unit c.toNat, fun rest => ?_, fun pieces => ?_⟩
    · have hhigh := hexValue?_hexDigit (c.toNat / 16) (by omega)
      have hlow := hexValue?_hexDigit (c.toNat % 16) (by omega)
      have hunit :
          unit? '0' '0' (Json.hexDigit (c.toNat / 16)) (Json.hexDigit (c.toNat % 16)) = some (.unit c.toNat) := by
        have hzero : hexValue? '0' = some 0 := rfl
        have hdivision : ((0 * 16 + 0) * 16 + c.toNat / 16) * 16 + c.toNat % 16 = c.toNat := by omega
        simp only [unit?, hzero, hhigh, hlow, hdivision]
      simp only [List.cons_append, List.nil_append, read?, hunit]
      cases read? rest <;> rfl
    · rw [assemble?_unit (by omega), Char.ofNat_toNat]
  | itself hquote hbackslash h =>
    refine ⟨.char c, fun rest => ?_, fun pieces => by rw [assemble?]⟩
    simp only [List.cons_append, List.nil_append]
    rw [read?, if_neg (Nat.not_lt.2 h)]
    · cases read? rest <;> rfl
    · exact hquote
    · exact fun _ _ _ _ _ hc => absurd hc hbackslash
    · exact fun _ _ hc => absurd hc hbackslash

/-- An escaped text is read, up to its closing quote, as the text that it stands for. -/
theorem exists_read? (cs rest : List Char) : ∃ pieces,
    read? (cs.flatMap escape ++ '"' :: rest) = some (pieces, rest) ∧ assemble? pieces = some cs := by
  induction cs with
  | nil => exact ⟨[], by rw [List.flatMap_nil, List.nil_append, read?], rfl⟩
  | cons c cs ih =>
    obtain ⟨pieces, hread, hassemble⟩ := ih
    obtain ⟨piece, hpiece, hstands⟩ := read?_escapes (escapes_escape c)
    refine ⟨piece :: pieces, ?_, ?_⟩
    · rw [List.flatMap_cons, List.append_assoc, hpiece, hread]
      rfl
    · rw [hstands, hassemble]
      rfl

end Piece

/-- A quoted text and what follows it are told from the characters of both. -/
theorem Json.quote_append_inj {s t : String} {rest rest' : List Char} (h : quote s ++ rest = quote t ++ rest') :
    s = t ∧ rest = rest' := by
  simp only [quote, List.cons_append, List.cons.injEq, true_and, List.append_assoc, List.nil_append] at h
  obtain ⟨pieces, hread, hassemble⟩ := Piece.exists_read? s.toList rest
  obtain ⟨pieces', hread', hassemble'⟩ := Piece.exists_read? t.toList rest'
  rw [h, hread'] at hread
  cases hread
  rw [hassemble, Option.some.injEq, String.toList_inj] at hassemble'
  exact ⟨hassemble', rfl⟩

/-! ## Bind values -/

theorem append_inj_of_forall {α : Type} {p : α → Bool} {xs ys rest rest' : List α} (hxs : ∀ x ∈ xs, p x = true)
    (hys : ∀ y ∈ ys, p y = true) (hrest : ∀ z ∈ rest.head?, p z = false) (hrest' : ∀ z ∈ rest'.head?, p z = false)
    (h : xs ++ rest = ys ++ rest') : xs = ys ∧ rest = rest' := by
  have htake {zs rest : List α} (hzs : ∀ z ∈ zs, p z = true) (hrest : ∀ z ∈ rest.head?, p z = false) :
      (zs ++ rest).takeWhile p = zs := by
    rw [List.takeWhile_append_of_pos hzs]
    cases rest with
    | nil => simp
    | cons z rest => simp [hrest z rfl]
  obtain rfl : xs = ys := by rw [← htake hxs hrest, h, htake hys hrest']
  exact ⟨rfl, List.append_cancel_left h⟩

namespace BindValue

open Token (isWordChar)

variable {v w : BindValue} {rest rest' : List Char}

/-- A value that is written as a word. -/
inductive IsWord : BindValue → Prop
  | int (n : Int) : IsWord (.int n)
  | bool (b : Bool) : IsWord (.bool b)

theorem isWord_or_text (h : ∀ x, v ≠ .float x) : v.IsWord ∨ ∃ s, v = .text s := by
  cases v with
  | text s => exact .inr ⟨s, rfl⟩
  | int n => exact .inl (.int n)
  | float x => exact absurd rfl (h x)
  | bool b => exact .inl (.bool b)

theorem isWordChar_of_isMark {c : Char} (h : isMark c = true) : isWordChar c = true := by
  rcases Number.isMark_iff.1 h with h | rfl | rfl
  · simp [isWordChar, Char.isAlphanum, Char.isDigit_iff_toNat.2 h]
  · decide
  · decide

theorem IsWord.isWordChar (h : v.IsWord) : ∀ c ∈ v.json.chars, isWordChar c = true := by
  cases h with
  | int n => exact fun c hc => isWordChar_of_isMark ((Number.writes_toString n).isMark_of_mem c hc)
  | bool b => cases b <;> exact List.all_eq_true.1 rfl

theorem IsWord.exists_cons (h : v.IsWord) : ∃ c cs, v.json.chars = c :: cs ∧ Token.isWordChar c = true := by
  have hne : v.json.chars ≠ [] := by
    cases h with
    | int n => exact (Number.writes_toString n).ne_nil
    | bool b => cases b <;> decide
  obtain ⟨c, cs, hcs⟩ := List.exists_cons_of_ne_nil hne
  exact ⟨c, cs, hcs, h.isWordChar c (hcs ▸ List.mem_cons_self)⟩

/-- No integer is written like a truth value or another integer. -/
theorem IsWord.inj (hv : v.IsWord) (hw : w.IsWord) (h : v.json.chars = w.json.chars) : v = w := by
  have hint (n : Int) : Number.integer? (BindValue.int n).json.chars = some n :=
    Number.integer?_eq_some.2 (Number.writes_toString n)
  have hbool (b : Bool) : Number.integer? (BindValue.bool b).json.chars = none := by
    cases b <;> decide
  have hread := congrArg Number.integer? h
  cases hv with
  | int n =>
    cases hw with
    | int m =>
      rw [hint, hint] at hread
      rw [Option.some.inj hread]
    | bool b =>
      rw [hint, hbool] at hread
      cases hread
  | bool b =>
    cases hw with
    | int n =>
      rw [hint, hbool] at hread
      cases hread
    | bool b' =>
      revert h
      cases b <;> cases b' <;> decide

theorem IsWord.append_ne (h : v.IsWord) {c : Char} (hc : Token.isWordChar c = false) :
    v.json.chars ++ rest ≠ c :: rest' := by
  obtain ⟨d, cs, hcs, hd⟩ := h.exists_cons
  intro heq
  rw [hcs] at heq
  obtain rfl : d = c := (List.cons.inj heq).1
  exact Bool.false_ne_true (hc.symm.trans hd)

/-- A value that is no float, and what follows it, are told from the characters of both, unless this goes on with a
word. -/
theorem chars_append_inj (hv : ∀ x, v ≠ .float x) (hw : ∀ x, w ≠ .float x)
    (hrest : ∀ c ∈ rest.head?, isWordChar c = false) (hrest' : ∀ c ∈ rest'.head?, isWordChar c = false)
    (h : v.json.chars ++ rest = w.json.chars ++ rest') : v = w ∧ rest = rest' := by
  rcases isWord_or_text hv with hv | ⟨s, rfl⟩ <;> rcases isWord_or_text hw with hw | ⟨t, rfl⟩
  · obtain ⟨hword, hrests⟩ := append_inj_of_forall hv.isWordChar hw.isWordChar hrest hrest' h
    exact ⟨hv.inj hw hword, hrests⟩
  · exact absurd h (hv.append_ne rfl)
  · exact absurd h.symm (hw.append_ne rfl)
  · obtain ⟨rfl, hrests⟩ := Json.quote_append_inj h
    exact ⟨rfl, hrests⟩

theorem json_text_inj (hv : ∀ x, v ≠ .float x) (hw : ∀ x, w ≠ .float x) (h : v.json.text = w.json.text) : v = w := by
  have hchars : v.json.chars ++ [] = w.json.chars ++ [] := by
    rw [Json.text, Json.text, String.ofList_inj] at h
    rw [h]
  exact (chars_append_inj hv hw (by simp) (by simp) hchars).1

/-! ## Lists of values -/

theorem itemChars_cons (v : BindValue) (vs : List BindValue) :
    Json.itemChars ((v :: vs).map json) = v.json.chars ++ vs.flatMap fun w => ',' :: w.json.chars := by
  induction vs generalizing v with
  | nil => simp [Json.itemChars]
  | cons w vs ih =>
    rw [List.map_cons, List.map_cons, Json.itemChars, ← List.map_cons, ih, List.flatMap_cons]
    rfl

theorem append_ne_bracket (h : ∀ x, v ≠ .float x) : v.json.chars ++ rest ≠ ']' :: rest' := by
  rcases isWord_or_text h with hv | ⟨s, rfl⟩
  · exact hv.append_ne rfl
  · exact fun heq => absurd (List.cons.inj heq).1 (by decide)

variable {vs ws : List BindValue}

theorem flatMap_append_inj (hvs : ∀ x, .float x ∉ vs) (hws : ∀ x, .float x ∉ ws)
    (h : (vs.flatMap fun v => ',' :: v.json.chars) ++ ']' :: rest =
      (ws.flatMap fun w => ',' :: w.json.chars) ++ ']' :: rest') : vs = ws := by
  -- behind each value stands a comma or the bracket
  have hbehind (us : List BindValue) (rest : List Char) :
      ∀ c ∈ ((us.flatMap fun u => ',' :: u.json.chars) ++ ']' :: rest).head?, isWordChar c = false := by
    cases us with
    | nil => simpa using by decide
    | cons u us => simpa using by decide
  induction vs generalizing ws with
  | nil =>
    cases ws with
    | nil => rfl
    | cons w ws => exact absurd (List.cons.inj h).1 (by decide)
  | cons v vs ih =>
    cases ws with
    | nil => exact absurd (List.cons.inj h).1 (by decide)
    | cons w ws =>
      simp only [List.mem_cons, not_or] at hvs hws
      simp only [List.flatMap_cons, List.cons_append, List.cons.injEq, true_and, List.append_assoc] at h
      obtain ⟨rfl, htail⟩ := chars_append_inj (fun x hx => (hvs x).1 hx.symm) (fun x hx => (hws x).1 hx.symm)
        (hbehind vs rest) (hbehind ws rest') h
      rw [ih (fun x => (hvs x).2) (fun x => (hws x).2) htail]

/-- Values that are no floats, in a list up to its closing bracket, are told from the characters. -/
theorem itemChars_append_inj (hvs : ∀ x, .float x ∉ vs) (hws : ∀ x, .float x ∉ ws)
    (h : Json.itemChars (vs.map json) ++ ']' :: rest = Json.itemChars (ws.map json) ++ ']' :: rest') : vs = ws := by
  cases vs with
  | nil =>
    cases ws with
    | nil => rfl
    | cons w ws =>
      rw [itemChars_cons, List.append_assoc] at h
      exact absurd h.symm (append_ne_bracket fun x hx => hws x (hx ▸ List.mem_cons_self))
  | cons v vs =>
    cases ws with
    | nil =>
      rw [itemChars_cons, List.append_assoc] at h
      exact absurd h (append_ne_bracket fun x hx => hvs x (hx ▸ List.mem_cons_self))
    | cons w ws =>
      rw [itemChars_cons, itemChars_cons] at h
      exact flatMap_append_inj hvs hws (congrArg (',' :: ·) h)

end BindValue

end Criteria
