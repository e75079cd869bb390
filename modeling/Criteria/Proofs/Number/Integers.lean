import Criteria.BindValue
import Criteria.Proofs.Number.Digits
import Criteria.Proofs.Params.Sorts
import Mathlib.Data.List.TakeWhile

/-!
# Integers as they are written

* `Text.trimChars_append`, `Text.exists_trimChars` — a text without spaces is what is left of it between any spaces.
* `Writes` — an optional sign and the digits of an integer; `integer?_eq_some`: this is what is read as the integer, of
  any size.
* `padded` — the digits of an integer behind its sign and some zeros; the usual text of an integer has no such zeros.
* `IsInt64`, `Denotes` — the integers of 64 bits, and the texts that denote one of them, with any spaces around.
* `coerce?_integer` — a text is a value of an integer column just if it denotes an integer, and then it is this integer.
-/

namespace Criteria

/-! ## Spaces at the ends -/

namespace Text

variable {before cs after : List Char}

theorem trimChars_append (hbefore : ∀ c ∈ before, isSpace c = true) (hcs : ∀ c ∈ cs, isSpace c = false)
    (hafter : ∀ c ∈ after, isSpace c = true) : trimChars (before ++ cs ++ after) = cs := by
  have hfront : (cs ++ after).dropWhile isSpace = cs ++ after ∨ cs = [] := by
    cases cs with
    | nil => exact .inr rfl
    | cons c cs => exact .inl (List.dropWhile_cons_of_neg (by simp [hcs c List.mem_cons_self]))
  have hback : cs.reverse.dropWhile isSpace = cs.reverse :=
    dropWhile_of_unspaced fun c hc => hcs c (List.mem_reverse.1 hc)
  rw [trimChars, List.append_assoc, List.dropWhile_append_of_pos hbefore]
  rcases hfront with hfront | rfl
  · rw [hfront, List.reverse_append,
      List.dropWhile_append_of_pos fun c hc => hafter c (List.mem_reverse.1 hc), hback, List.reverse_reverse]
  · rw [List.nil_append, List.dropWhile_eq_nil_iff.2 hafter]
    rfl

theorem trimChars_of_unspaced (h : ∀ c ∈ cs, isSpace c = false) : trimChars cs = cs := by
  simpa using @trimChars_append [] cs [] nofun h nofun

/-- What is trimmed off are spaces. -/
theorem exists_trimChars (cs : List Char) : ∃ before after, cs = before ++ trimChars cs ++ after ∧
    (∀ c ∈ before, isSpace c = true) ∧ ∀ c ∈ after, isSpace c = true := by
  refine ⟨cs.takeWhile isSpace, ((cs.dropWhile isSpace).reverse.takeWhile isSpace).reverse, ?_, ?_, ?_⟩
  · rw [trimChars, List.append_assoc, ← List.reverse_append, List.takeWhile_append_dropWhile, List.reverse_reverse,
      List.takeWhile_append_dropWhile]
  · exact fun c hc => List.mem_takeWhile_imp hc
  · exact fun c hc => List.mem_takeWhile_imp (List.mem_reverse.1 hc)

end Text

namespace Number

variable {cs : List Char} {raw : String} {n : Int}

/-! ## Signs and digits -/

/-- An optional sign and the digits of an integer, behind any zeros. -/
inductive Writes : List Char → Int → Prop
  | plain {digits : List Char} {n : Nat} (h : Spells digits n) : Writes digits n
  | plus {digits : List Char} {n : Nat} (h : Spells digits n) : Writes ('+' :: digits) n
  | minus {digits : List Char} {n : Nat} (h : Spells digits n) : Writes ('-' :: digits) (-n)

theorem integer?_of_take {sign : Option Sign} {digits : List Char} (h : Sign.take cs = (sign, digits)) :
    integer? cs = some n ↔ ∃ m : Nat, Spells digits m ∧ n = if sign = some .minus then -(m : Int) else m := by
  simp only [integer?, h, ← natural?_eq_some]
  rcases sign with _ | _ | _ <;> dsimp only <;> cases natural? digits <;> simp [eq_comm]

/-- What is read as an integer is what writes it. -/
theorem integer?_eq_some : integer? cs = some n ↔ Writes cs n := by
  constructor
  · intro h
    rcases hsign : Sign.take cs with ⟨sign, digits⟩
    obtain ⟨m, hm, rfl⟩ := (integer?_of_take hsign).1 h
    unfold Sign.take at hsign
    split at hsign <;> cases hsign
    · exact .plus hm
    · exact .minus hm
    · exact .plain hm
  · intro h
    cases h with
    | plain h => exact (integer?_of_take (Sign.take_of_spells h)).2 ⟨_, h, rfl⟩
    | plus h => exact (integer?_of_take rfl).2 ⟨_, h, rfl⟩
    | minus h => exact (integer?_of_take rfl).2 ⟨_, h, rfl⟩

/-- The digits of an integer behind its sign and some zeros. -/
def padded (zeros : Nat) (n : Int) : List Char :=
  (if n < 0 then ['-'] else []) ++ (List.replicate zeros '0' ++ Nat.toDigits 10 n.natAbs)

theorem writes_padded (zeros : Nat) (n : Int) : Writes (padded zeros n) n := by
  have hspells : Spells (List.replicate zeros '0' ++ Nat.toDigits 10 n.natAbs) n.natAbs := ⟨zeros, rfl⟩
  unfold padded
  split
  · rename_i hn
    have hminus := Writes.minus hspells
    rwa [Int.ofNat_natAbs_of_nonpos (Int.le_of_lt hn), Int.neg_neg] at hminus
  · rename_i hn
    have hplain := Writes.plain hspells
    rwa [Int.natAbs_of_nonneg (Int.not_lt.1 hn)] at hplain

/-- The usual text of an integer has no zeros before its digits. -/
theorem toList_toString (n : Int) : (toString n).toList = padded 0 n := by
  cases n with
  | ofNat n =>
    show (toString n).toList = _
    rw [Nat.toString_eq_ofList_toDigits, String.toList_ofList]
    rfl
  | negSucc n =>
    show ("-" ++ toString (n + 1)).toList = _
    rw [Nat.toString_eq_ofList_toDigits, String.toList_append, String.toList_ofList, String.toList_ofList, padded,
      if_pos (Int.negSucc_lt_zero n)]
    rfl

theorem writes_toString (n : Int) : Writes (toString n).toList n := by
  rw [toList_toString]
  exact writes_padded 0 n

/-- A digit or a sign. -/
def isMark (c : Char) : Bool := isDigit c || c == '+' || c == '-'

theorem Writes.isMark_of_mem (h : Writes cs n) : ∀ c ∈ cs, isMark c = true := by
  have hdigits {digits : List Char} {n : Nat} (h : Spells digits n) : ∀ c ∈ digits, isMark c = true :=
    fun c hc => by simp [isMark, List.all_eq_true.1 h.all_isDigit c hc]
  cases h with
  | plain h => exact hdigits h
  | plus h => exact List.forall_mem_cons.2 ⟨by decide, hdigits h⟩
  | minus h => exact List.forall_mem_cons.2 ⟨by decide, hdigits h⟩

theorem isMark_iff {c : Char} : isMark c = true ↔ (48 ≤ c.toNat ∧ c.toNat ≤ 57) ∨ c = '+' ∨ c = '-' := by
  rw [isMark, Bool.or_eq_true, Bool.or_eq_true, beq_iff_eq, beq_iff_eq, isDigit_iff, or_assoc]

theorem isSpace_of_isMark {c : Char} (h : isMark c = true) : Text.isSpace c = false := by
  rcases isMark_iff.1 h with h | rfl | rfl
  · simp only [Text.isSpace, Bool.or_eq_false_iff, Bool.and_eq_false_iff, decide_eq_false_iff_not,
      beq_eq_false_iff_ne]
    omega
  · decide
  · decide

theorem Writes.ne_nil (h : Writes cs n) : cs ≠ [] := by
  cases h with
  | plain h => exact h.ne_nil
  | plus | minus => exact List.cons_ne_nil _ _

/-! ## Integers of 64 bits -/

/-- An integer of 64 bits. -/
def IsInt64 (n : Int) : Prop := -(powTwo 63 : Int) ≤ n ∧ n < powTwo 63

instance (n : Int) : Decidable (IsInt64 n) := inferInstanceAs (Decidable (_ ∧ _))

/-- A text denotes an integer of 64 bits: it writes it, with any spaces around. -/
def Denotes (raw : String) (n : Int) : Prop :=
  IsInt64 n ∧ ∃ before cs after, raw.toList = before ++ cs ++ after ∧ Writes cs n ∧
    (∀ c ∈ before, Text.isSpace c = true) ∧ ∀ c ∈ after, Text.isSpace c = true

theorem int64?_eq_some : int64? raw = some n ↔ Writes raw.toList n ∧ IsInt64 n := by
  rw [← integer?_eq_some]
  unfold int64?
  cases integer? raw.toList with
  | none => simp
  | some m =>
    show (if IsInt64 m then some m else none) = some n ↔ some m = some n ∧ IsInt64 n
    by_cases hm : IsInt64 m
    · rw [if_pos hm, iff_self_and]
      intro h
      rwa [← Option.some.inj h]
    · rw [if_neg hm]
      constructor
      · nofun
      · rintro ⟨h, hn⟩
        rw [← Option.some.inj h] at hn
        exact absurd hn hm

/-- What denotes an integer is what writes it without the spaces at its ends. -/
theorem int64?_trim : int64? (Text.trim raw) = some n ↔ Denotes raw n := by
  rw [int64?_eq_some, Text.trim, String.toList_ofList]
  constructor
  · rintro ⟨hwrites, hn⟩
    obtain ⟨before, after, hraw, hbefore, hafter⟩ := Text.exists_trimChars raw.toList
    exact ⟨hn, before, _, after, hraw, hwrites, hbefore, hafter⟩
  · rintro ⟨hn, before, cs, after, hraw, hwrites, hbefore, hafter⟩
    rw [hraw, Text.trimChars_append hbefore (fun c hc => isSpace_of_isMark (hwrites.isMark_of_mem c hc)) hafter]
    exact ⟨hwrites, hn⟩

/-- What writes an integer with no spaces around denotes this integer or none. -/
theorem Writes.denotes_iff {m : Int} (h : Writes raw.toList m) : Denotes raw n ↔ m = n ∧ IsInt64 n := by
  have htrim : (Text.trim raw).toList = raw.toList := by
    rw [Text.trim, String.toList_ofList]
    exact Text.trimChars_of_unspaced fun c hc => isSpace_of_isMark (h.isMark_of_mem c hc)
  rw [← int64?_trim, int64?_eq_some, htrim, ← integer?_eq_some, integer?_eq_some.2 h, Option.some.injEq]

theorem denotes_toString (hn : IsInt64 n) : Denotes (toString n) n := (writes_toString n).denotes_iff.2 ⟨rfl, hn⟩

/-- There is nothing but spaces, signs and digits in a text that denotes an integer. -/
theorem Denotes.mem (h : Denotes raw n) : ∀ c ∈ raw.toList, Text.isSpace c = true ∨ isMark c = true := by
  obtain ⟨-, before, cs, after, hraw, hwrites, hbefore, hafter⟩ := h
  intro c hc
  rw [hraw, List.mem_append, List.mem_append] at hc
  rcases hc with (hc | hc) | hc
  · exact .inl (hbefore c hc)
  · exact .inr (hwrites.isMark_of_mem c hc)
  · exact .inl (hafter c hc)

theorem Denotes.isBlank (h : Denotes raw n) : Text.isBlank raw = false := by
  obtain ⟨-, before, cs, after, hraw, hwrites, -⟩ := h
  obtain ⟨c, hc⟩ := List.exists_mem_of_ne_nil cs hwrites.ne_nil
  exact Text.isBlank_of_mem (by simp [hraw, hc]) (isSpace_of_isMark (hwrites.isMark_of_mem c hc))

end Number

/-! ## Integer columns -/

open Number

/-- A text is a value of an integer column just if it denotes an integer, and the value is this integer. -/
theorem ColumnType.coerce?_integer {raw : String} {v : BindValue} :
    ColumnType.integer.coerce? raw = some v ↔ ∃ n, Denotes raw n ∧ v = .int n := by
  simp only [coerce?, Option.map_eq_some_iff, int64?_trim, @eq_comm _ v]

theorem ColumnType.coerce?_integer_eq_none {raw : String} (h : ∀ n, ¬ Denotes raw n) :
    ColumnType.integer.coerce? raw = none := by
  rw [Option.eq_none_iff_forall_ne_some]
  intro v hv
  obtain ⟨n, hn, -⟩ := coerce?_integer.1 hv
  exact h n hn

namespace Predicate

variable {p : Predicate} {raw : String}

theorem coerce_eq_ok_iff {type : ColumnType} {v : BindValue} :
    p.coerce raw type = .ok v ↔ type.coerce? raw = some v := by
  unfold coerce
  split <;> simp [*]

theorem coerce_integer {n : Int} (h : Denotes raw n) : p.coerce raw .integer = .ok (.int n) :=
  coerce_eq_ok_iff.2 (ColumnType.coerce?_integer.2 ⟨n, h, rfl⟩)

theorem coerce_integer_of_not_denotes (h : ∀ n, ¬ Denotes raw n) :
    p.coerce raw .integer = .error (.unsupportedValue p (.notOfType raw .integer)) := by
  rw [coerce, ColumnType.coerce?_integer_eq_none h]

end Predicate

end Criteria
