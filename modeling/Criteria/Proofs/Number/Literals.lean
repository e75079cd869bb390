import Criteria.Json.Document
import Criteria.Proofs.Number.Integers

/-!
# Number literals

* `Document.fitting_eq_iff` — digits are read to their end just if their number has at most 64 bits.
* `Token.number?_eq_integer` — a literal is taken for an integer just if it writes one between the least of 64 signed
  bits and the greatest of 64 unsigned ones, and is not minus zero.
* `Binary64.mem_exponentText`, `Binary64.point_mem_exponentText` — the text of any other number is made of digits,
  signs, points and powers of ten, and has a point or a power; so `JsonNumber.denotes_text`: it denotes no integer.
-/

namespace Criteria

open Number (Binary64 Numeral Sign Writes Spells IsInt64 Denotes isDigit isMark powTwo)

/-! ## Numerals without a fraction or a power -/

namespace Number

variable {cs digits : List Char} {sign : Option Sign} {n : Int}

theorem Numeral.ofChars?_eq_some : Numeral.ofChars? cs = some ⟨sign, digits, none, none⟩ ↔
    Sign.take cs = (sign, digits) ∧ digits.all isDigit = true := by
  unfold Numeral.ofChars? takeDigits
  obtain ⟨sign', rest⟩ := Sign.take cs
  dsimp only
  constructor
  · intro h
    obtain ⟨exponent, hexponent, hparts⟩ := Option.map_eq_some_iff.1 h
    simp only [mk.injEq] at hparts
    obtain ⟨rfl, rfl, hfraction, rfl⟩ := hparts
    have hrest : rest.dropWhile isDigit = [] := by
      revert hfraction hexponent
      unfold takeFraction
      split
      · nofun
      · intro _ hexponent
        unfold takeExponent? at hexponent
        split at hexponent
        · assumption
        · split at hexponent <;> cases hexponent
    refine ⟨?_, List.all_takeWhile⟩
    conv_lhs => rw [← List.takeWhile_append_dropWhile (p := isDigit) (l := rest), hrest, List.append_nil]
  · rintro ⟨hsign, hdigits⟩
    cases hsign
    rw [List.all_eq_true] at hdigits
    rw [List.takeWhile_eq_self_iff.2 hdigits, List.dropWhile_eq_nil_iff.2 hdigits]
    rfl

theorem Numeral.isNegative_iff {lit : Numeral} : lit.isNegative = true ↔ lit.sign = some .minus := beq_iff_eq

/-- A strict numeral has no zero in front of other digits. -/
theorem Numeral.whole_of_isStrict {lit : Numeral} (h : lit.isStrict = true) :
    lit.sign ≠ some .plus ∧ (lit.whole = ['0'] ∨ lit.whole ≠ [] ∧ lit.whole.head? ≠ some '0') := by
  simp only [isStrict, Bool.and_eq_true, Bool.or_eq_true, beq_iff_eq, Bool.not_eq_true', List.isEmpty_eq_false_iff,
    bne_iff_ne] at h
  exact h.1.1

theorem Spells.head?_zero (h : Spells cs 0) : cs.head? = some '0' := by
  obtain ⟨zeros, rfl⟩ := h
  cases zeros <;> rfl

end Number

/-! ## Literals -/

namespace Document

variable {v n : Nat} {ds : List Char}

/-- Digits are read to their end just if their number has at most 64 bits. -/
theorem fitting_eq_iff (hv : v < powTwo 64) :
    fitting v ds = (n, 0) ↔ Nat.ofDigitChars 10 ds v = n ∧ n < powTwo 64 := by
  induction ds generalizing v with
  | nil =>
    rw [fitting, Nat.ofDigitChars_nil, Prod.mk.injEq]
    constructor
    · rintro ⟨rfl, -⟩
      exact ⟨rfl, hv⟩
    · rintro ⟨rfl, -⟩
      exact ⟨rfl, rfl⟩
  | cons c cs ih =>
    rw [Nat.ofDigitChars_cons, fitting]
    generalize 10 * v + (c.toNat - '0'.toNat) = more at ih ⊢
    by_cases hfits : more < powTwo 64
    · rw [if_pos hfits]
      exact ih hfits
    · rw [if_neg hfits, Nat.ofDigitChars_eq_ofDigitChars_zero]
      have hgrows : more ≤ 10 ^ cs.length * more := Nat.le_mul_of_pos_left more (Nat.pow_pos (by decide))
      constructor
      · nofun
      · rintro ⟨rfl, hn⟩
        omega

/-- A numeral is taken for an integer if it has neither a fraction nor a power and is not minus zero. -/
theorem number?_eq_integer {lit : Numeral} {n : Int} : number? lit = some (.integer n) ↔
    lit.fraction = none ∧ lit.exponent = none ∧ ∃ m : Nat, Nat.ofDigitChars 10 lit.whole 0 = m ∧ m < powTwo 64 ∧
      n = (if lit.sign = some .minus then -(m : Int) else m) ∧ -(powTwo 63 : Int) ≤ n ∧
      ¬ (lit.sign = some .minus ∧ m = 0) := by
  obtain ⟨m, extra, hfit⟩ : ∃ m extra, fitting 0 lit.whole = (m, extra) := ⟨_, _, rfl⟩
  unfold number?
  simp only [hfit, Numeral.isNegative_iff]
  generalize hsized : (if lit.sign = some .minus then -(m : Int) else m) = sized
  split
  · rename_i hinteger
    obtain ⟨hfraction, hexponent, rfl, hlow, hzero⟩ := hinteger
    obtain ⟨hm, hlt⟩ := (fitting_eq_iff (by decide)).1 hfit
    constructor
    · intro h
      cases h
      exact ⟨hfraction, hexponent, m, hm, hlt, hsized.symm, hlow, hzero⟩
    · rintro ⟨-, -, m', hm', -, rfl, -⟩
      rw [← hm', hm, hsized]
  · rename_i hreal
    constructor
    · intro h
      obtain ⟨y, -, hy⟩ := Option.map_eq_some_iff.1 h
      cases hy
    · rintro ⟨hfraction, hexponent, m', hm', hlt, rfl, hlow, hzero⟩
      have hfit' := (fitting_eq_iff (by decide)).2 ⟨hm', hlt⟩
      rw [hfit, Prod.mk.injEq] at hfit'
      obtain ⟨rfl, rfl⟩ := hfit'
      rw [hsized] at hlow
      exact absurd ⟨hfraction, hexponent, rfl, hlow, hzero⟩ hreal

end Document

namespace Token

variable {word : List Char} {lit : Numeral} {x : JsonNumber} {n : Int}

theorem ofWord?_eq_number (h : ofWord? word = some (.number lit)) :
    Numeral.ofChars? word = some lit ∧ lit.isStrict = true := by
  unfold ofWord? at h
  split at h
  · cases h
  · cases h
  · cases h
  · split at h
    · split at h <;> cases h
      exact ⟨‹_›, ‹_›⟩
    · cases h

/-- A literal is taken for the integer that it writes, if this has at most 64 bits and is not minus zero. -/
theorem number?_eq_integer (hword : ofWord? word = some (.number lit)) (hx : Document.number? lit = some x) :
    x = .integer n ↔ Writes word n ∧ -(powTwo 63 : Int) ≤ n ∧ n < powTwo 64 ∧ word ≠ ['-', '0'] := by
  obtain ⟨hlit, hstrict⟩ := ofWord?_eq_number hword
  have hinteger : x = .integer n ↔ Document.number? lit = some (.integer n) := by rw [hx, Option.some.injEq]
  rw [hinteger, Document.number?_eq_integer]
  obtain ⟨hplus, hwhole⟩ := Numeral.whole_of_isStrict hstrict
  obtain ⟨sign, whole, fraction, exponent⟩ := lit
  dsimp only at hplus hwhole
  have h63 : powTwo 63 = 2 ^ 63 := rfl
  have h64 : powTwo 64 = 2 ^ 64 := rfl
  constructor
  · rintro ⟨rfl, rfl, m, hm, hlt, hn, hlow, hzero⟩
    obtain ⟨hsign, hdigits⟩ := Numeral.ofChars?_eq_some.1 hlit
    have hne : whole ≠ [] := by
      rintro rfl
      simp at hwhole
    have hspells : Spells whole m := hm ▸ Number.spells_ofDigitChars hne hdigits
    refine ⟨Number.integer?_eq_some.1 ((Number.integer?_of_take hsign).2 ⟨m, hspells, hn⟩), hlow, ?_, ?_⟩
    · rw [hn]
      split <;> omega
    · rintro rfl
      cases hsign
      exact hzero ⟨rfl, hm.symm⟩
  · rintro ⟨hwrites, hlow, hhigh, hne⟩
    rcases hsign : Sign.take word with ⟨sign', digits⟩
    obtain ⟨m, hspells, hn⟩ := (Number.integer?_of_take hsign).1 (Number.integer?_eq_some.2 hwrites)
    have hlit' := Numeral.ofChars?_eq_some.2 ⟨hsign, hspells.all_isDigit⟩
    rw [hlit] at hlit'
    cases hlit'
    refine ⟨rfl, rfl, m, hspells.ofDigitChars, ?_, hn, hlow, ?_⟩
    · split at hn <;> omega
    · rintro ⟨rfl, rfl⟩
      have hzero : whole = ['0'] := hwhole.resolve_right fun h => h.2 hspells.head?_zero
      unfold Sign.take at hsign
      split at hsign <;> cases hsign
      rw [hzero] at hne
      exact hne rfl

theorem number?_eq_int64 (hword : ofWord? word = some (.number lit)) (hx : Document.number? lit = some x) :
    x = .integer n ∧ IsInt64 n ↔ Writes word n ∧ IsInt64 n ∧ word ≠ ['-', '0'] := by
  have h63 : powTwo 63 = 2 ^ 63 := rfl
  have h64 : powTwo 64 = 2 ^ 64 := rfl
  rw [number?_eq_integer hword hx, IsInt64]
  constructor
  · rintro ⟨⟨hwrites, -, -, hne⟩, hn⟩
    exact ⟨hwrites, hn, hne⟩
  · rintro ⟨hwrites, hn, hne⟩
    exact ⟨⟨hwrites, by omega, by omega, hne⟩, hn⟩

end Token

/-! ## Texts of other numbers -/

namespace Number.Binary64

variable {c : Char} {digits : List Char}

theorem mem_placePoint (hdigits : ∀ c ∈ digits, isDigit c = true) {point : Int} (h : c ∈ placePoint digits point) :
    isMark c = true ∨ c = '.' := by
  have hmark {c : Char} (hc : isDigit c = true) : isMark c = true := by simp [isMark, hc]
  have hdigit : c ∈ digits → isMark c = true ∨ c = '.' := fun hc => .inl (hmark (hdigits c hc))
  have hzero {k : Nat} (hc : c ∈ List.replicate k '0') : isMark c = true ∨ c = '.' := by
    rw [List.eq_of_mem_replicate hc]
    exact .inl rfl
  unfold placePoint at h
  split at h
  · rcases List.mem_cons.1 h with rfl | h
    · exact .inl rfl
    rcases List.mem_cons.1 h with rfl | h
    · exact .inr rfl
    exact (List.mem_append.1 h).elim hzero hdigit
  · split at h
    · rcases List.mem_append.1 h with h | h
      · exact hdigit (List.mem_of_mem_take h)
      rcases List.mem_cons.1 h with rfl | h
      · exact .inr rfl
      exact hdigit (List.mem_of_mem_drop h)
    · exact (List.mem_append.1 h).elim hdigit hzero

theorem point_mem_placePoint {point : Int} (h : point < digits.length) : '.' ∈ placePoint digits point := by
  unfold placePoint
  rw [if_pos h]
  split <;> simp

theorem mem_powerText {e : Int} (h : c ∈ powerText e) : isMark c = true ∨ c = 'e' := by
  rcases List.mem_cons.1 h with rfl | h
  · exact .inr rfl
  rcases List.mem_cons.1 h with rfl | h
  · split <;> exact .inl rfl
  exact .inl (by simp [isMark, isDigit_of_mem_toDigits h])

/-- A number that is no integer is written in digits, signs, points and marks of a power of ten. -/
theorem mem_exponentText {x : Binary64} (h : c ∈ x.exponentText.toList) : isMark c = true ∨ c = '.' ∨ c = 'e' := by
  have hplace {point : Int} (hc : c ∈ placePoint (digitChars (x.shortest .even).digits) point) :
      isMark c = true ∨ c = '.' ∨ c = 'e' :=
    (mem_placePoint (fun c => isDigit_of_mem_toDigits) hc).imp_right .inl
  have hzero (hc : c = '0' ∨ c ∈ ['.', '0']) : isMark c = true ∨ c = '.' ∨ c = 'e' := by
    simp only [List.mem_cons, List.not_mem_nil, or_false] at hc
    rcases hc with rfl | rfl | rfl
    exacts [.inl rfl, .inr (.inl rfl), .inl rfl]
  unfold exponentText at h
  rw [String.toList_append, List.mem_append, String.toList_ofList] at h
  rcases h with h | h
  · unfold signText at h
    split at h
    · obtain rfl : c = '-' := by simpa using h
      exact .inl rfl
    · simp at h
  · split at h
    · exact hzero (List.mem_cons.1 h)
    · split at h <;> rcases List.mem_append.1 h with h | h
      · exact hplace h
      · split at h
        · exact hzero (.inr h)
        · cases h
      · exact hplace h
      · exact (mem_powerText h).imp_right .inr

/-- A number that is no integer has a point or a power of ten. -/
theorem point_mem_exponentText (x : Binary64) : '.' ∈ x.exponentText.toList ∨ 'e' ∈ x.exponentText.toList := by
  unfold exponentText
  rw [String.toList_append, String.toList_ofList]
  refine Or.imp (List.mem_append_right _) (List.mem_append_right _) ?_
  split
  · exact .inl (by decide)
  · split
    · refine .inl (List.mem_append.2 ?_)
      split
      · exact .inr (by decide)
      · rename_i hpoint
        exact .inl (point_mem_placePoint (Int.not_le.1 hpoint))
    · exact .inr (List.mem_append_right _ List.mem_cons_self)

end Number.Binary64

/-- The text of a number denotes an integer of 64 bits just if the number is one. -/
theorem JsonNumber.denotes_text {x : JsonNumber} {n : Int} : Denotes x.text n ↔ x = .integer n ∧ IsInt64 n := by
  cases x with
  | integer m => rw [JsonNumber.text, (Number.writes_toString m).denotes_iff, JsonNumber.integer.injEq]
  | real x =>
    constructor
    · intro h
      rcases x.point_mem_exponentText with hmem | hmem <;> exact absurd (h.mem _ hmem) (by decide)
    · rintro ⟨h, -⟩
      cases h

end Criteria
