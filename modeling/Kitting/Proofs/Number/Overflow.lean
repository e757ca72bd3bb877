import Kitting.Proofs.Number.Rounding

namespace Kitting.Double

variable {n : Nat}

/-- The least positive integer that has no number: halfway from `(2 ^ 53 - 1) * 2 ^ 971` to `2 ^ 1024`. -/
def overflowBound : Nat := (2 ^ 54 - 1) * 2 ^ 970

theorem scaled_one_of_nonneg (n k : Nat) : scaled n 1 (k : Int) = (n, 2 ^ k) := by
  rw [scaled, if_pos (Int.natCast_nonneg k), Int.toNat_natCast, Nat.one_mul]
  rfl

theorem roundingExponent_one (h : n ≠ 0) : roundingExponent n 1 = n.log2 - 52 := by
  obtain ⟨hlow, hhigh⟩ := bounds_log2 h
  have hpow (k : Nat) : (2 : ℚ) ^ k * 2 ^ ((n.log2 : Int) - 52) = 2 ^ ((k : Int) + (n.log2 - 52)) := by
    rw [zpow_add₀ two_ne_zero, zpow_natCast]
  have hleads : Leads (n / (1 : Nat)) (n.log2 - 52) := by
    rw [Nat.cast_one, div_one]
    constructor
    case least =>
      rw [leastExponent]
      omega
    case below =>
      rw [hpow]
      convert hhigh using 2
      omega
    case above =>
      refine .inr ?_
      rw [hpow]
      convert hlow using 2
      omega
  exact (leads_roundingExponent h one_ne_zero).eq hleads

theorem sign_of_infinity {negative sign : Bool} (h : ofFraction negative n 1 = infinity sign) : sign = negative := by
  by_cases hn : n = 0
  · rw [ofFraction, if_pos hn] at h
    cases h
  rw [ofFraction_eq negative hn] at h
  simp only at h
  repeat' split at h
  all_goals cases h
  all_goals rfl

theorem roundHalfEven_le (n d : Nat) : roundHalfEven n d ≤ n / d + 1 := by
  rw [roundHalfEven]
  split
  · exact Nat.le_succ _
  split
  · exact Nat.le_refl _
  split
  · exact Nat.le_succ _
  · exact Nat.le_refl _

theorem roundHalfEven_of_odd {d : Nat} (h : n / d % 2 = 1) :
    roundHalfEven n d = if 2 * (n % d) < d then n / d else n / d + 1 := by
  rw [roundHalfEven, h, if_neg Nat.one_ne_zero, ite_self]

theorem roundHalfEven_eq_iff {k : Nat} (h : n < 2 ^ 54 * k) :
    roundHalfEven n (2 * k) = 2 ^ 53 ↔ (2 ^ 54 - 1) * k ≤ n := by
  have hdiv : 2 * k * (n / (2 * k)) + n % (2 * k) = n := Nat.div_add_mod n (2 * k)
  have hmod : n % (2 * k) < 2 * k := Nat.mod_lt n (by omega)
  have hquotient : n / (2 * k) < 2 ^ 53 := by
    rw [Nat.div_lt_iff_lt_mul (by omega)]
    omega
  by_cases hlast : n / (2 * k) = 2 ^ 53 - 1
  · rw [roundHalfEven_of_odd (by omega), hlast]
    rw [hlast] at hdiv
    split <;> omega
  · have hle := roundHalfEven_le n (2 * k)
    have hnext : 2 * k * (n / (2 * k) + 1) ≤ 2 * k * (2 ^ 53 - 1) := Nat.mul_le_mul_left _ (by omega)
    rw [Nat.mul_add] at hnext
    exact iff_of_false (by omega) (by omega)

theorem ofFraction_eq_infinity_iff (negative : Bool) (n : Nat) :
    ofFraction negative n 1 = infinity negative ↔ overflowBound ≤ n := by
  rw [overflowBound]
  by_cases h : n = 0
  · subst h
    rw [ofFraction, if_pos rfl]
    exact iff_of_false (fun h => by cases h) (by omega)
  rw [ofFraction_eq negative h, roundingExponent_one h, greatestExponent]
  obtain hsmall | hedge | hlarge : n.log2 < 1023 ∨ n.log2 = 1023 ∨ 1024 ≤ n.log2 := by omega
  · simp only [if_neg (show ¬(971 : Int) < n.log2 - 52 + 1 by omega),
      if_neg (show ¬(971 : Int) < n.log2 - 52 by omega)]
    rw [Nat.log2_lt h] at hsmall
    refine iff_of_false ?_ (by omega)
    split <;> intro h <;> cases h
  · have hexponent : (n.log2 : Int) - 52 = (971 : Nat) := by omega
    have hdouble : 2 ^ 971 = 2 * 2 ^ 970 := by omega
    have hlt : n.log2 < 1024 := by omega
    rw [Nat.log2_lt h] at hlt
    have hround := roundHalfEven_eq_iff (show n < 2 ^ 54 * 2 ^ 970 by omega)
    simp only [hexponent, scaled_one_of_nonneg, hdouble]
    rw [← hround]
    split
    case isTrue heq => exact iff_of_true (if_pos (by decide)) heq
    case isFalse hne => exact iff_of_false (by rw [if_neg (by decide)]; intro h; cases h) hne
  · simp only [if_pos (show (971 : Int) < n.log2 - 52 + 1 by omega),
      if_pos (show (971 : Int) < n.log2 - 52 by omega), ite_self, true_iff]
    rw [Nat.le_log2 h] at hlarge
    omega

theorem ofInt?_eq_none_iff (n : Int) : ofInt? n = none ↔ overflowBound ≤ n.natAbs := by
  rw [← ofFraction_eq_infinity_iff (n < 0), ofInt?]
  split
  case h_1 sign h => exact iff_of_true rfl (by rw [h, sign_of_infinity h])
  case h_2 h => exact iff_of_false (fun hnone => by cases hnone) (h _)

end Kitting.Double
