import Kitting.Proofs.Number.Overflow
import Kitting.Proofs.Number.Shortest

namespace Kitting.Double

variable {num den k m : Nat} {e : Int} {q : ℚ}

theorem toRat?_finite (m : Nat) (e : Int) : toRat? (finite false m e) = some ((m : ℚ) * 2 ^ e) := by
  rw [← fraction_eq, ← Int.cast_natCast (fraction m e).1, ← Rat.mkRat_eq_div]
  rfl

theorem lt_finite (m n : Nat) (e f : Int) :
    lt (finite false m e) (finite false n f) = decide ((m * 2 ^ e : ℚ) < n * 2 ^ f) := by
  rw [lt, toRat?_finite, toRat?_finite]

theorem le_finite_iff (m n : Nat) (e f : Int) :
    le (finite false m e) (finite false n f) ↔ (m * 2 ^ e : ℚ) ≤ n * 2 ^ f := by
  simp [le, lt_finite]

theorem ofFraction_unsigned (num den : Nat) :
    ofFraction false num den = infinity false ∨ ∃ m e, ofFraction false num den = finite false m e := by
  by_cases h : num = 0
  · exact .inr ⟨0, leastExponent, by rw [ofFraction, if_pos h]; rfl⟩
  rw [ofFraction_eq false h]
  simp only
  repeat' split
  all_goals simp

theorem zero_le_ofFraction (num den : Nat) : (zero false).le (ofFraction false num den) := by
  obtain h | ⟨m, e, h⟩ := ofFraction_unsigned num den
  · rw [h]
    rfl
  · rw [h, zero, le_finite_iff, Nat.cast_zero, zero_mul]
    positivity

theorem Leads.le_of_le_one (h : Leads q e) (hq : q ≤ 1) : e ≤ -52 := by
  obtain hleast | habove := h.above
  · rw [hleast, leastExponent]
    decide
  · have hpow : (2 : ℚ) ^ (52 + e) ≤ 2 ^ (0 : Int) := by
      rw [zpow_add₀ two_ne_zero, zpow_zero]
      exact habove.trans hq
    have hle := (zpow_le_zpow_iff_right₀ (one_lt_two : (1 : ℚ) < 2)).1 hpow
    omega

theorem roundHalfEven_le_of_le (hden : den ≠ 0) (h : num ≤ k * den) : roundHalfEven num den ≤ k := by
  obtain hlt | heq := (Nat.div_le_of_le_mul (Nat.mul_comm k den ▸ h)).lt_or_eq
  · exact (roundHalfEven_le num den).trans hlt
  · have hrest : num % den = 0 := by
      have hdiv := Nat.div_add_mod num den
      rw [heq, Nat.mul_comm den k] at hdiv
      omega
    rw [roundHalfEven, hrest, if_pos (by omega), heq]

theorem ofFraction_le_one (hden : den ≠ 0) (h : num ≤ den) :
    (ofFraction false num den).le (ofFraction false 1 1) := by
  have hone : ofFraction false 1 1 = finite false (2 ^ 52) (-52) := by decide +kernel
  have hone' : ((2 ^ 52 : Nat) * 2 ^ (-52 : Int) : ℚ) = 1 := by norm_num
  rw [hone]
  by_cases hnum : num = 0
  · rw [ofFraction, if_pos hnum, zero, le_finite_iff, hone', Nat.cast_zero, zero_mul]
    exact zero_le_one
  have hle : (num / den : ℚ) ≤ 1 := by
    rw [div_le_one (by positivity)]
    exact_mod_cast h
  have he := (leads_roundingExponent hnum hden).le_of_le_one hle
  rw [ofFraction_eq false hnum]
  generalize roundingExponent num den = e at he
  -- The exponent is negative, hence 1 is a whole number of units of the last digit.
  obtain ⟨s, rfl⟩ : ∃ s : Nat, e = -s := ⟨(-e).toNat, by omega⟩
  have hscaled : scaled num den (-s) = (num * 2 ^ s, den) := by
    rw [scaled, if_neg (by omega)]
    simp [Nat.pow_eq]
  have hround : roundHalfEven (num * 2 ^ s) den ≤ 2 ^ s :=
    roundHalfEven_le_of_le hden (Nat.mul_comm num (2 ^ s) ▸ Nat.mul_le_mul_left _ h)
  have hvalue : (roundHalfEven (num * 2 ^ s) den * 2 ^ (-s : Int) : ℚ) ≤ 1 := by
    have hcast : (roundHalfEven (num * 2 ^ s) den : ℚ) ≤ 2 ^ s := by exact_mod_cast hround
    calc (roundHalfEven (num * 2 ^ s) den * 2 ^ (-s : Int) : ℚ) ≤ 2 ^ s * 2 ^ (-s : Int) := by gcongr
      _ = 1 := by rw [← zpow_natCast, ← zpow_add₀ two_ne_zero, Int.add_right_neg, zpow_zero]
  simp only [hscaled]
  split
  case isTrue hcarry =>
    rw [hcarry] at hvalue
    rw [if_neg (by rw [greatestExponent]; omega), le_finite_iff, hone', zpow_add_one₀ two_ne_zero]
    push_cast at hvalue ⊢
    linarith
  case isFalse =>
    rw [if_neg (by rw [greatestExponent]; omega), le_finite_iff, hone']
    exact hvalue

theorem zero_le_ofRat (hq : 0 ≤ q) : (zero false).le (ofRat q) := by
  rw [ofRat, decide_eq_false (not_lt.2 (Rat.num_nonneg.2 hq))]
  exact zero_le_ofFraction _ _

theorem ofRat_le_one (hq : 0 ≤ q) (hle : q ≤ 1) : (ofRat q).le (ofFraction false 1 1) := by
  have hnum := Rat.num_nonneg.2 hq
  rw [ofRat, decide_eq_false (not_lt.2 hnum)]
  refine ofFraction_le_one q.den_nz ?_
  have hnumerator := Rat.num_le_denom_iff.2 hle
  omega

end Kitting.Double
