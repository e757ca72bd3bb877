import Kitting.Proofs.Number.Rounding

namespace Kitting.Double

variable {m n b num den fuel count : Nat} {e k : Int} {t : ℚ}

section Digits

theorem digitCount_le_iff {c : Nat} (hc : 0 < c) : digitCount n ≤ c ↔ n < 10 ^ c := by
  rw [digitCount, ← String.length_toList, Nat.repr_eq_ofList_toDigits, String.toList_ofList,
    Nat.length_toDigits_le_iff (by omega) hc]

theorem digitCount_pos (n : Nat) : 0 < digitCount n := by
  rw [digitCount, ← String.length_toList, Nat.repr_eq_ofList_toDigits, String.toList_ofList]
  exact Nat.length_toDigits_pos

theorem lt_pow_digitCount (n : Nat) : n < 10 ^ digitCount n :=
  (digitCount_le_iff (digitCount_pos n)).1 le_rfl

theorem pow_digitCount_le (h : n ≠ 0) : 10 ^ (digitCount n - 1) ≤ n := by
  obtain hone | hmore : digitCount n = 1 ∨ 0 < digitCount n - 1 := by
    have := digitCount_pos n
    omega
  · rw [hone]
    exact Nat.one_le_iff_ne_zero.2 h
  · rw [← not_lt, ← digitCount_le_iff hmore]
    omega

theorem decimalExponent_le (hnum : num ≠ 0) (hden : den ≠ 0) : (10 : ℚ) ^ decimalExponent num den ≤ num / den := by
  have hnumpos : (0 : ℚ) < num := by exact_mod_cast Nat.pos_of_ne_zero hnum
  have hdenpos : (0 : ℚ) < den := by exact_mod_cast Nat.pos_of_ne_zero hden
  rw [decimalExponent, le_div_iff₀ hdenpos]
  split
  case isTrue h =>
    have hwhole : num / den ≠ 0 := by
      rw [Nat.div_ne_zero_iff]
      exact ⟨hden, h⟩
    have hexponent : (digitCount (num / den) : Int) - 1 = (digitCount (num / den) - 1 : Nat) := by
      have := digitCount_pos (num / den)
      omega
    rw [hexponent, zpow_natCast]
    have hdigits : 10 ^ (digitCount (num / den) - 1) * den ≤ num :=
      (Nat.mul_le_mul_right den (pow_digitCount_le hwhole)).trans (Nat.div_mul_le_self num den)
    exact_mod_cast hdigits
  case isFalse h =>
    have hdigits : den ≤ num * 10 ^ digitCount ((den - 1) / num) := by
      have hlt := lt_pow_digitCount ((den - 1) / num)
      rw [Nat.div_lt_iff_lt_mul (Nat.pos_of_ne_zero hnum), Nat.mul_comm] at hlt
      omega
    have hcast : (den : ℚ) ≤ num * 10 ^ digitCount ((den - 1) / num) := by exact_mod_cast hdigits
    rw [zpow_neg, zpow_natCast, inv_mul_le_iff₀ (by positivity), mul_comm]
    exact hcast

end Digits

section Grid

theorem near_floor_or_succ (hm : m ≠ 0) (hbelow : b * t ≤ m * 2 ^ e) (habove : (m * 2 ^ e : ℚ) < (b + 1 : Nat) * t)
    (hstep : t < (lowerGap m e + 1 / 2) * 2 ^ e) : Near m e (b * t) ∨ Near m e ((b + 1 : Nat) * t) := by
  have hpow : (0 : ℚ) < 2 ^ e := by positivity
  have hgap : 0 < lowerGap m e := by
    rw [lowerGap]
    split <;> norm_num
  have hgapPow : 0 < lowerGap m e * 2 ^ e := mul_pos hgap hpow
  have hstrict {q : ℚ} (hlow : (m - lowerGap m e) * 2 ^ e < q) (hhigh : q < (m + 1 / 2) * 2 ^ e) : Near m e q := by
    rw [near_iff hm]
    split
    · exact ⟨hlow.le, hhigh.le⟩
    · exact ⟨hlow, hhigh⟩
  rw [add_mul] at hstep
  push_cast at habove
  by_cases hnear : (m - lowerGap m e) * 2 ^ e < b * t
  · refine .inl (hstrict hnear ?_)
    rw [add_mul]
    linarith
  · refine .inr (hstrict ?_ ?_)
    · rw [sub_mul]
      push_cast
      linarith
    · rw [not_lt, sub_mul] at hnear
      rw [add_mul]
      push_cast
      linarith

theorem pow_lt_of_canonical {negative : Bool} (hx : Canonical (finite negative m e)) (h : (10 : ℚ) ^ k ≤ m * 2 ^ e) :
    (10 : ℚ) ^ (k - 16) < (lowerGap m e + 1 / 2) * 2 ^ e := by
  have hpow : (0 : ℚ) < 2 ^ e := by positivity
  have hdigits : (10 : ℚ) ^ (k - 16) ≤ m * 2 ^ e / 10 ^ 16 := by
    rw [zpow_sub₀ (by norm_num)]
    gcongr
    norm_num
  refine hdigits.trans_lt ?_
  rw [div_lt_iff₀ (by norm_num), lowerGap]
  split
  case isTrue hedge =>
    rw [hedge.1]
    push_cast
    linarith
  case isFalse =>
    have hlt : (m : ℚ) * 2 ^ e < 2 ^ 53 * 2 ^ e := by
      gcongr
      exact_mod_cast hx.1
    linarith

end Grid

section Steps

def ratio (base : Nat) (k : Int) : Nat × Nat :=
  if 0 ≤ k then (base ^ k.toNat, 1) else (1, base ^ (-k).toNat)

theorem ratio_pos {base : Nat} (h : 0 < base) (k : Int) : 0 < (ratio base k).1 ∧ 0 < (ratio base k).2 := by
  rw [ratio]
  split
  · exact ⟨Nat.pow_pos h, Nat.one_pos⟩
  · exact ⟨Nat.one_pos, Nat.pow_pos h⟩

theorem ratio_eq (base : Nat) (k : Int) : ((ratio base k).1 : ℚ) / (ratio base k).2 = base ^ k := by
  rw [ratio]
  split
  case isTrue h =>
    push_cast
    rw [div_one, ← zpow_natCast, Int.toNat_of_nonneg h]
  case isFalse h =>
    push_cast
    rw [one_div, ← zpow_natCast, Int.toNat_of_nonneg (by omega), zpow_neg, inv_inv]

theorem fraction_eq_ratio (m : Nat) (e : Int) : fraction m e = (m * (ratio 2 e).1, (ratio 2 e).2) := by
  rw [fraction, ratio]
  split
  · rfl
  · rw [Nat.mul_one]
    rfl

theorem fraction_eq (m : Nat) (e : Int) : ((fraction m e).1 : ℚ) / (fraction m e).2 = m * 2 ^ e := by
  have hratio := ratio_eq 2 e
  rw [fraction_eq_ratio]
  push_cast at hratio ⊢
  rw [mul_div_assoc, hratio]

theorem mul_ratio_le_mul_ratio_iff (a g : Nat) (e k : Int) :
    (a * (ratio 2 e).1 * (ratio 10 k).2 ≤ g * (ratio 10 k).1 * (ratio 2 e).2 ↔ (a * 2 ^ e : ℚ) ≤ g * 10 ^ k) ∧
      (g * (ratio 10 k).1 * (ratio 2 e).2 ≤ a * (ratio 2 e).1 * (ratio 10 k).2 ↔ (g * 10 ^ k : ℚ) ≤ a * 2 ^ e) := by
  have htwo : (0 : ℚ) < (ratio 2 e).2 := by exact_mod_cast (ratio_pos Nat.two_pos e).2
  have hten : (0 : ℚ) < (ratio 10 k).2 := by exact_mod_cast (ratio_pos (by omega : 0 < 10) k).2
  have h₂ := ratio_eq 2 e
  have h₁₀ := ratio_eq 10 k
  push_cast at h₂ h₁₀
  rw [← h₂, ← h₁₀, mul_div_assoc', mul_div_assoc', div_le_div_iff₀ htwo hten, div_le_div_iff₀ hten htwo]
  exact ⟨by exact_mod_cast Iff.rfl, by exact_mod_cast Iff.rfl⟩

def isInside (m : Nat) (e k : Int) (g : Nat) : Bool :=
  let (lower, _, upper, e) := quarters m e
  let grid := g * (ratio 10 k).1 * (ratio 2 e).2
  let point (q : Nat) := q * (ratio 2 e).1 * (ratio 10 k).2
  if m % 2 == 0 then point lower ≤ grid && grid ≤ point upper else point lower < grid && grid < point upper

def floorPoint (m : Nat) (e k : Int) : Nat :=
  let (_, middle, _, e) := quarters m e
  middle * (ratio 2 e).1 * (ratio 10 k).2 / ((ratio 10 k).1 * (ratio 2 e).2)

def nearestPoint (m : Nat) (e k : Int) : Nat :=
  let (_, middle, _, e) := quarters m e
  let below := middle * (ratio 2 e).1 * (ratio 10 k).2 / ((ratio 10 k).1 * (ratio 2 e).2)
  let sum := below * (ratio 10 k).1 * (ratio 2 e).2 + (below + 1) * (ratio 10 k).1 * (ratio 2 e).2
  let twice := 2 * (middle * (ratio 2 e).1 * (ratio 10 k).2)
  if twice < sum then below else if sum < twice then below + 1 else if below % 2 = 0 then below else below + 1

def leadingExponent (m : Nat) (e : Int) : Int :=
  let (_, middle, _, e) := quarters m e
  decimalExponent (fraction middle e).1 (fraction middle e).2

theorem shortestFrom_succ (m : Nat) (e : Int) (fuel count : Nat) :
    shortestFrom m e (fuel + 1) count =
      let k := leadingExponent m e - count + 1
      let b := floorPoint m e k
      match isInside m e k b, isInside m e k (b + 1) with
      | true, true => (nearestPoint m e k, k)
      | true, false => (b, k)
      | false, true => (b + 1, k)
      | false, false => shortestFrom m e fuel (count + 1) := rfl

theorem isInside_iff (m : Nat) (e k : Int) (g : Nat) : isInside m e k g ↔ Near m e (g * 10 ^ k) := by
  simp only [isInside, Near, beq_iff_eq]
  split
  · simp only [Bool.and_eq_true, decide_eq_true_eq, (mul_ratio_le_mul_ratio_iff _ _ _ _).1,
      (mul_ratio_le_mul_ratio_iff _ _ _ _).2]
  · simp only [Bool.and_eq_true, decide_eq_true_eq, ← not_le, (mul_ratio_le_mul_ratio_iff _ _ _ _).1,
      (mul_ratio_le_mul_ratio_iff _ _ _ _).2]

theorem nearestPoint_eq (m : Nat) (e k : Int) :
    nearestPoint m e k = floorPoint m e k ∨ nearestPoint m e k = floorPoint m e k + 1 := by
  rw [nearestPoint, floorPoint]
  simp only
  repeat' split
  all_goals simp

theorem middle_eq (m : Nat) (e : Int) : ((4 * m : Nat) : ℚ) * 2 ^ (e - 2) = m * 2 ^ e := by
  rw [zpow_sub₀ two_ne_zero]
  push_cast
  ring

theorem floorPoint_bounds (m : Nat) (e k : Int) :
    (floorPoint m e k * 10 ^ k : ℚ) ≤ m * 2 ^ e ∧ (m * 2 ^ e : ℚ) < (floorPoint m e k + 1 : Nat) * 10 ^ k := by
  have hden : 0 < (ratio 10 k).1 * (ratio 2 (e - 2)).2 :=
    Nat.mul_pos (ratio_pos (by omega) k).1 (ratio_pos Nat.two_pos _).2
  rw [← middle_eq, ← (mul_ratio_le_mul_ratio_iff _ _ _ _).2, ← not_le, ← (mul_ratio_le_mul_ratio_iff _ _ _ _).2, not_le,
    Nat.mul_assoc _ (ratio 10 k).1, Nat.mul_assoc _ (ratio 10 k).1]
  exact ⟨Nat.div_mul_le_self _ _, Nat.lt_mul_of_div_lt (Nat.lt_succ_self _) hden⟩

theorem leadingExponent_le (hm : m ≠ 0) (e : Int) : (10 : ℚ) ^ leadingExponent m e ≤ m * 2 ^ e := by
  have hratio := ratio_pos Nat.two_pos (e - 2)
  have hnum : (fraction (4 * m) (e - 2)).1 ≠ 0 := by
    rw [fraction_eq_ratio]
    exact Nat.mul_ne_zero (by omega) hratio.1.ne'
  have hden : (fraction (4 * m) (e - 2)).2 ≠ 0 := by
    rw [fraction_eq_ratio]
    exact hratio.2.ne'
  exact (decimalExponent_le hnum hden).trans_eq ((fraction_eq _ _).trans (middle_eq m e))

end Steps

section Shortest

variable {negative : Bool}

theorem near_or_shortestFrom_succ (m : Nat) (e : Int) (fuel count : Nat) :
    let r := shortestFrom m e (fuel + 1) count
    let k := leadingExponent m e - count + 1
    Near m e (r.1 * 10 ^ r.2) ∨
      ¬(Near m e (floorPoint m e k * 10 ^ k) ∨ Near m e ((floorPoint m e k + 1 : Nat) * 10 ^ k)) ∧
        r = shortestFrom m e fuel (count + 1) := by
  rw [shortestFrom_succ]
  generalize leadingExponent m e - count + 1 = k
  simp only [← isInside_iff]
  cases hbelow : isInside m e k (floorPoint m e k) with
  | false =>
    cases habove : isInside m e k (floorPoint m e k + 1) with
    | false => exact .inr ⟨by simp, rfl⟩
    | true => exact .inl habove
  | true =>
    cases habove : isInside m e k (floorPoint m e k + 1) with
    | false => exact .inl hbelow
    | true =>
      have hnearest : isInside m e k (nearestPoint m e k) := by
        obtain h | h := nearestPoint_eq m e k
        · exact h ▸ hbelow
        · exact h ▸ habove
      exact .inl hnearest

theorem near_shortestFrom (hx : Canonical (finite negative m e)) (hm : m ≠ 0) (hcount : fuel + count = 17) :
    Near m e ((shortestFrom m e (fuel + 1) count).1 * 10 ^ (shortestFrom m e (fuel + 1) count).2) := by
  induction fuel generalizing count with
  | zero =>
    obtain hhit | ⟨hmiss, -⟩ := near_or_shortestFrom_succ m e 0 count
    · exact hhit
    · obtain ⟨hbelow, habove⟩ := floorPoint_bounds m e (leadingExponent m e - count + 1)
      have hstep := pow_lt_of_canonical hx (leadingExponent_le hm e)
      have hk : leadingExponent m e - 16 = leadingExponent m e - count + 1 := by omega
      exact absurd (near_floor_or_succ hm hbelow habove (hk ▸ hstep)) hmiss
  | succ fuel ih =>
    obtain hhit | ⟨-, hnext⟩ := near_or_shortestFrom_succ m e (fuel + 1) count
    · exact hhit
    · rw [hnext]
      exact ih (by omega)

theorem dropZeros_eq (fuel n : Nat) (k : Int) :
    ((dropZeros fuel n k).1 * 10 ^ (dropZeros fuel n k).2 : ℚ) = n * 10 ^ k := by
  induction fuel generalizing n k with
  | zero => rfl
  | succ fuel ih =>
    rw [dropZeros]
    split
    case isTrue h =>
      have hten : (n : ℚ) = (n / 10 : Nat) * 10 := by
        exact_mod_cast (Nat.div_mul_cancel (Nat.dvd_of_mod_eq_zero h)).symm
      rw [ih, zpow_add_one₀ (by norm_num), hten]
      ring
    case isFalse => rfl

theorem near_shortest (hx : Canonical (finite negative m e)) (hm : m ≠ 0) :
    Near m e ((shortest m e).1 * 10 ^ (shortest m e).2) := by
  rw [shortest, if_neg hm]
  simp only [dropZeros_eq]
  exact near_shortestFrom hx hm rfl

end Shortest

section Decimal

variable {negative : Bool} {digits : Nat} {exponent : Int}

theorem Near.lt_pow_greatest (hx : Canonical (finite negative m e)) (hm : m ≠ 0) {q : ℚ} (h : Near m e q) :
    q < 10 ^ (309 : Int) := by
  obtain ⟨⟨-, hhigh⟩, -⟩ := h.bounds hm
  have hlt : (m : ℚ) + 1 ≤ 2 ^ 53 := by exact_mod_cast hx.1
  have hexponent : e ≤ 971 := hx.2.2.1
  calc q ≤ (m + 1 / 2) * 2 ^ e := hhigh
    _ ≤ 2 ^ 53 * 2 ^ (971 : Int) := by
      gcongr
      · linarith
      · exact one_le_two
    _ < 10 ^ (309 : Int) := by
      have hpow : (2 ^ 53 * 2 ^ 971 : Nat) < 10 ^ 309 := by decide +kernel
      exact_mod_cast hpow

theorem Near.pow_least_lt (hx : Canonical (finite negative m e)) (hm : m ≠ 0) {q : ℚ} (h : Near m e q) :
    10 ^ (-331 : Int) < q := by
  obtain ⟨⟨hlow, -⟩, -⟩ := h.bounds hm
  have hone : (1 : ℚ) ≤ m := by exact_mod_cast Nat.one_le_iff_ne_zero.2 hm
  have hexponent : -1074 ≤ e := hx.2.1
  calc (10 : ℚ) ^ (-331 : Int) < 1 / 2 * 2 ^ (-1074 : Int) := by
        have hpow : (2 ^ 1074 * 2 : Nat) < 10 ^ 331 := by decide +kernel
        have hcast : (2 ^ 1074 * 2 : ℚ) < 10 ^ 331 := by exact_mod_cast hpow
        rw [zpow_neg, zpow_neg, one_div, ← mul_inv_rev]
        exact (inv_lt_inv₀ (by positivity) (by positivity)).2 hcast
    _ ≤ (m - lowerGap m e) * 2 ^ e := by
      have hgap := lowerGap_le m e
      have hpow : (2 : ℚ) ^ (-1074 : Int) ≤ 2 ^ e := zpow_le_zpow_right₀ one_le_two hexponent
      exact mul_le_mul (by linarith) hpow (by positivity) (by linarith)
    _ ≤ q := hlow

theorem ofDecimal_of_near (hx : Canonical (finite negative m e)) (hm : m ≠ 0)
    (h : Near m e (digits * 10 ^ exponent)) : ofDecimal negative digits exponent = finite negative m e := by
  have hdigits : digits ≠ 0 := by
    rintro rfl
    simpa using h.pos hm
  have hten : (0 : ℚ) < 10 ^ exponent := by positivity
  have hhigh : ¬(310 : Int) < exponent + digitCount digits := by
    intro hlarge
    have hpow : ((10 ^ (digitCount digits - 1) : Nat) : ℚ) ≤ digits := by exact_mod_cast pow_digitCount_le hdigits
    refine absurd (h.lt_pow_greatest hx hm) (not_lt.2 ?_)
    calc (10 : ℚ) ^ (309 : Int) ≤ 10 ^ (((digitCount digits - 1 : Nat) : Int) + exponent) := by
          have := digitCount_pos digits
          gcongr
          · norm_num
          · omega
      _ = ((10 ^ (digitCount digits - 1) : Nat) : ℚ) * 10 ^ exponent := by
          rw [zpow_add₀ (by norm_num), zpow_natCast]
          push_cast
          rfl
      _ ≤ digits * 10 ^ exponent := by gcongr
  have hlow : ¬exponent + digitCount digits < -330 := by
    intro hsmall
    have hpow : (digits : ℚ) < (10 ^ digitCount digits : Nat) := by exact_mod_cast lt_pow_digitCount digits
    refine absurd (h.pow_least_lt hx hm) (not_lt.2 ?_)
    calc (digits * 10 ^ exponent : ℚ) ≤ (10 ^ digitCount digits : Nat) * 10 ^ exponent := by gcongr
      _ = 10 ^ ((digitCount digits : Int) + exponent) := by
          rw [zpow_add₀ (by norm_num), zpow_natCast]
          push_cast
          rfl
      _ ≤ 10 ^ (-331 : Int) := by
          gcongr
          · norm_num
          · omega
  rw [ofDecimal, if_neg hdigits]
  change (if 310 < exponent + digitCount digits then _ else if exponent + digitCount digits < -330 then _ else _) = _
  rw [if_neg hhigh, if_neg hlow]
  split
  case isTrue hexponent =>
    refine ofFraction_of_near hx hm one_ne_zero ?_
    rw [← Int.toNat_of_nonneg hexponent, zpow_natCast] at h
    simpa using h
  case isFalse hexponent =>
    refine ofFraction_of_near hx hm (pow_ne_zero _ (by norm_num)) ?_
    have hneg : (10 : ℚ) ^ exponent = (10 ^ (-exponent).toNat)⁻¹ := by
      rw [← zpow_natCast, Int.toNat_of_nonneg (by omega), zpow_neg, inv_inv]
    rw [hneg, ← div_eq_mul_inv] at h
    simpa using h

end Decimal

end Kitting.Double
