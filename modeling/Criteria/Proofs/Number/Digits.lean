import Criteria.Number.Numeral

/-!
# Numbers in digits

* `Spells` — the digits of a number in base ten behind any zeros; `natural?_eq_some`: they are what is read as the number.
* `IsPosition` — such digits of a number of 64 bits, perhaps behind a plus sign; `index?_eq_some`: they are what is read
  as a position.
-/

namespace Criteria.Number

/-- The digits of a number in base ten, behind any zeros. -/
def Spells (cs : List Char) (n : Nat) : Prop := ∃ zeros, cs = List.replicate zeros '0' ++ Nat.toDigits 10 n

variable {cs : List Char} {c : Char} {n : Nat}

/-! ## Digits -/

theorem isDigit_iff : isDigit c = true ↔ 48 ≤ c.toNat ∧ c.toNat ≤ 57 := by
  rw [isDigit, Bool.and_eq_true, decide_eq_true_iff, decide_eq_true_iff]
  rfl

theorem digitsValue_eq (cs : List Char) : digitsValue cs = Nat.ofDigitChars 10 cs 0 := Nat.ofDigitChars_eq_foldl.symm

/-- A digit is the only one of its value. -/
theorem toDigits_of_isDigit (h : isDigit c = true) : Nat.toDigits 10 (c.toNat - 48) = [c] := by
  obtain ⟨hlow, hhigh⟩ := isDigit_iff.1 h
  have hlt : c.toNat - 48 < 10 := by omega
  rw [Nat.toDigits_of_lt_base hlt, List.singleton_inj, ← Char.toNat_inj, Nat.toNat_digitChar_of_lt_ten hlt]
  omega

/-- Digits behind those of a number that is not zero go on with it. -/
theorem toDigits_append (hcs : cs.all isDigit = true) (hn : 0 < n) :
    Nat.toDigits 10 n ++ cs = Nat.toDigits 10 (Nat.ofDigitChars 10 cs n) := by
  induction cs generalizing n with
  | nil => simp
  | cons c cs ih =>
    rw [List.all_cons, Bool.and_eq_true] at hcs
    obtain ⟨hlow, hhigh⟩ := isDigit_iff.1 hcs.1
    have hzero : '0'.toNat = 48 := rfl
    have hnext : Nat.toDigits 10 n ++ [c] = Nat.toDigits 10 (10 * n + (c.toNat - 48)) := by
      rw [← toDigits_of_isDigit hcs.1, Nat.toDigits_append_toDigits (by decide) hn (by omega)]
    rw [Nat.ofDigitChars_cons, hzero, ← ih hcs.2 (by omega), ← hnext, List.append_assoc]
    rfl

/-- Digits are those of their value behind some zeros. -/
theorem spells_ofDigitChars (hne : cs ≠ []) (hcs : cs.all isDigit = true) : Spells cs (Nat.ofDigitChars 10 cs 0) := by
  induction cs with
  | nil => exact absurd rfl hne
  | cons c cs ih =>
    rw [List.all_cons, Bool.and_eq_true] at hcs
    have hzero : '0'.toNat = 48 := rfl
    rw [Nat.ofDigitChars_cons, Nat.mul_zero, Nat.zero_add, hzero]
    by_cases hc : c = '0'
    · subst hc
      cases cs with
      | nil => exact ⟨0, rfl⟩
      | cons d ds =>
        obtain ⟨zeros, hspelled⟩ := ih (List.cons_ne_nil d ds) hcs.2
        refine ⟨zeros + 1, ?_⟩
        rw [hzero, Nat.sub_self, List.replicate_succ, List.cons_append, ← hspelled]
    · have hpos : 0 < c.toNat - 48 := by
        have hlow := (isDigit_iff.1 hcs.1).1
        have hne : c.toNat ≠ 48 := fun h => hc (Char.toNat_inj.1 h)
        omega
      refine ⟨0, ?_⟩
      rw [← toDigits_append hcs.2 hpos, toDigits_of_isDigit hcs.1]
      rfl

theorem isDigit_of_mem_toDigits (h : c ∈ Nat.toDigits 10 n) : isDigit c = true :=
  isDigit_iff.2 (Char.isDigit_iff_toNat.1 (Nat.isDigit_of_mem_toDigits (by decide) (by decide) h))

theorem Spells.ne_nil (h : Spells cs n) : cs ≠ [] := by
  obtain ⟨zeros, rfl⟩ := h
  simp

theorem Spells.all_isDigit (h : Spells cs n) : cs.all isDigit = true := by
  obtain ⟨zeros, rfl⟩ := h
  rw [List.all_eq_true]
  intro c hc
  rcases List.mem_append.1 hc with hc | hc
  · rw [List.eq_of_mem_replicate hc]
    rfl
  · exact isDigit_of_mem_toDigits hc

theorem Spells.ofDigitChars (h : Spells cs n) : Nat.ofDigitChars 10 cs 0 = n := by
  obtain ⟨zeros, rfl⟩ := h
  simp [Nat.ofDigitChars_append]

/-- What is read as a number are its digits behind any zeros. -/
theorem natural?_eq_some : natural? cs = some n ↔ Spells cs n := by
  rw [natural?, digitsValue_eq]
  constructor
  · intro h
    split at h
    · rename_i hcs
      cases h
      exact spells_ofDigitChars hcs.1 hcs.2
    · cases h
  · intro h
    rw [if_pos ⟨h.ne_nil, h.all_isDigit⟩, h.ofDigitChars]

/-! ## Positions -/

/-- The digits of a number of 64 bits behind any zeros, and perhaps a plus sign before them. -/
def IsPosition (key : String) (n : Nat) : Prop :=
  n < powTwo 64 ∧ (Spells key.toList n ∨ ∃ digits, key.toList = '+' :: digits ∧ Spells digits n)

theorem Sign.take_of_spells (h : Spells cs n) : Sign.take cs = (none, cs) := by
  have hdigits := List.all_eq_true.1 h.all_isDigit
  unfold Sign.take
  split
  · exact absurd (hdigits '+' List.mem_cons_self) (by decide)
  · exact absurd (hdigits '-' List.mem_cons_self) (by decide)
  · rfl

/-- What is read as a position are its digits, with or without zeros or a plus sign before them. -/
theorem index?_eq_some {key : String} : index? key = some n ↔ IsPosition key n := by
  unfold index? IsPosition
  generalize key.toList = cs
  constructor
  · intro h
    unfold Sign.take at h
    split at h
    · rename_i hsign
      split at hsign <;> cases hsign
      cases h
    · rename_i sign digits hnot hsign
      split at h
      · rename_i m hm
        rw [natural?_eq_some] at hm
        split at h <;> cases h
        rename_i hlt
        refine ⟨hlt, ?_⟩
        split at hsign <;> cases hsign
        · exact .inr ⟨digits, rfl, hm⟩
        · exact absurd rfl hnot
        · exact .inl hm
      · cases h
  · rintro ⟨hlt, hspelled | ⟨digits, rfl, hspelled⟩⟩
    · rw [Sign.take_of_spells hspelled]
      dsimp only
      rw [natural?_eq_some.2 hspelled]
      exact if_pos hlt
    · simp only [Sign.take]
      rw [natural?_eq_some.2 hspelled]
      exact if_pos hlt

/-- A key of zeros, or of zeros behind a plus sign, is a position; one of more than 64 bits is none. -/
example : index? "+007" = some 7 ∧ index? "00" = some 0 ∧ index? "18446744073709551616" = none := by decide

end Criteria.Number
