import Kitting.Number.Shortest
import Mathlib.Algebra.Order.Field.Power
import Mathlib.Algebra.Order.Field.Rat
import Mathlib.Tactic.GCongr
import Mathlib.Tactic.Linarith
import Mathlib.Tactic.NormNum
import Mathlib.Tactic.Positivity
import Mathlib.Tactic.Ring

namespace Kitting.Double

variable {num den m : Nat} {e f : Int} {q : ℚ}

/-- A number as `ofFraction` makes them: the significand has 53 digits, unless the exponent is the least one. -/
def Canonical : Double → Prop
  | finite _ m e => m < 2 ^ 53 ∧ leastExponent ≤ e ∧ e ≤ greatestExponent ∧ (e = leastExponent ∨ 2 ^ 52 ≤ m)
  | _ => True

instance : DecidablePred Canonical
  | nan | infinity _ => inferInstanceAs (Decidable True)
  | finite _ _ _ => inferInstanceAs (Decidable (_ ∧ _))

/-- Between the half-way points around `m · 2 ^ e`, which are among it if `m` is even. -/
def Near (m : Nat) (e : Int) (q : ℚ) : Prop :=
  let (lower, _, upper, e) := quarters m e
  if m % 2 = 0 then lower * 2 ^ e ≤ q ∧ q ≤ upper * 2 ^ e else lower * 2 ^ e < q ∧ q < upper * 2 ^ e

/-- The exponent with which a positive fraction has 53 digits before the point, if that is not too small. -/
structure Leads (q : ℚ) (e : Int) : Prop where
  least : leastExponent ≤ e
  below : q < 2 ^ 53 * 2 ^ e
  above : e = leastExponent ∨ 2 ^ 52 * 2 ^ e ≤ q

theorem Leads.eq (h : Leads q e) (h' : Leads q f) : e = f := by
  have hlt {e f : Int} (h : Leads q e) (h' : Leads q f) : ¬e < f := by
    intro hef
    obtain heq | habove := h'.above
    · exact absurd h.least (by omega)
    · have hpow : (2 : ℚ) ^ 53 * 2 ^ e ≤ 2 ^ 52 * 2 ^ f := by
        calc (2 : ℚ) ^ 53 * 2 ^ e = 2 ^ 52 * 2 ^ (e + 1) := by rw [zpow_add_one₀ two_ne_zero]; ring
          _ ≤ 2 ^ 52 * 2 ^ f := by
            gcongr
            · exact one_le_two
            · exact hef
      exact absurd (h.below.trans_le hpow) (not_lt.2 habove)
  exact le_antisymm (not_lt.1 (hlt h' h)) (not_lt.1 (hlt h h'))

section Exponent

theorem scaled_pos (num : Nat) (h : den ≠ 0) (e : Int) : 0 < (scaled num den e).2 := by
  rw [scaled]
  split
  · exact Nat.mul_pos (Nat.pos_of_ne_zero h) (Nat.two_pow_pos _)
  · exact Nat.pos_of_ne_zero h

theorem scaled_eq (num den : Nat) (e : Int) :
    ((scaled num den e).1 : ℚ) / (scaled num den e).2 = (num / den : ℚ) / 2 ^ e := by
  rw [scaled]
  split
  case isTrue h =>
    have hpow : ((2 : ℚ) ^ e.toNat) = 2 ^ e := by rw [← zpow_natCast, Int.toNat_of_nonneg h]
    simp only [Nat.pow_eq, Nat.cast_mul, Nat.cast_pow, Nat.cast_ofNat, hpow]
    rw [div_div]
  case isFalse h =>
    have hpow : ((2 : ℚ) ^ (-e).toNat) = (2 ^ e)⁻¹ := by
      rw [← zpow_natCast, Int.toNat_of_nonneg (by omega), zpow_neg]
    simp only [Nat.pow_eq, Nat.cast_mul, Nat.cast_pow, Nat.cast_ofNat, hpow]
    rw [div_eq_mul_inv, div_eq_mul_inv, div_eq_mul_inv]
    ring

def roundingExponent (num den : Nat) : Int :=
  let guess : Int := max leastExponent ((num.log2 : Int) - den.log2 - 53)
  if 2 ^ 53 ≤ (scaled num den guess).1 / (scaled num den guess).2 then guess + 1 else guess

theorem le_div_scaled_iff (num : Nat) (h : den ≠ 0) (e : Int) (k : Nat) :
    k ≤ (scaled num den e).1 / (scaled num den e).2 ↔ k * 2 ^ e ≤ (num / den : ℚ) := by
  have hpos := scaled_pos num h e
  have hpow : (0 : ℚ) < 2 ^ e := by positivity
  rw [Nat.le_div_iff_mul_le hpos, ← le_div_iff₀ hpow, ← scaled_eq, le_div_iff₀ (by exact_mod_cast hpos)]
  exact_mod_cast Iff.rfl

theorem bounds_log2 (h : num ≠ 0) : (2 : ℚ) ^ (num.log2 : Int) ≤ num ∧ (num : ℚ) < 2 ^ ((num.log2 : Int) + 1) := by
  constructor
  · rw [zpow_natCast]
    exact_mod_cast Nat.log2_self_le h
  · have hlt : num < 2 ^ (num.log2 + 1) := Nat.lt_log2_self
    have hcast : ((num.log2 : Int) + 1) = (num.log2 + 1 : Nat) := by omega
    rw [hcast, zpow_natCast]
    exact_mod_cast hlt

theorem bounds_log2_sub (hnum : num ≠ 0) (hden : den ≠ 0) :
    let g : Int := (num.log2 : Int) - den.log2 - 53
    2 ^ 52 * 2 ^ g < (num / den : ℚ) ∧ (num / den : ℚ) < 2 ^ 54 * 2 ^ g := by
  -- The first guess is at most one too small.
  obtain ⟨hnum₁, hnum₂⟩ := bounds_log2 hnum
  obtain ⟨hden₁, hden₂⟩ := bounds_log2 hden
  have hpos : (0 : ℚ) < den := by exact_mod_cast Nat.pos_of_ne_zero hden
  have htwo : (2 : ℚ) ≠ 0 := two_ne_zero
  intro g
  have hpow (k : Nat) (j : Int) : (2 : ℚ) ^ k * 2 ^ j = 2 ^ ((k : Int) + j) := by
    rw [zpow_add₀ htwo, zpow_natCast]
  rw [hpow, hpow, lt_div_iff₀ hpos, div_lt_iff₀ hpos]
  constructor
  · calc (2 : ℚ) ^ (((52 : Nat) : Int) + g) * den < 2 ^ (((52 : Nat) : Int) + g) * 2 ^ ((den.log2 : Int) + 1) := by
          gcongr
      _ = 2 ^ (num.log2 : Int) := by rw [← zpow_add₀ htwo]; congr 1; omega
      _ ≤ num := hnum₁
  · calc (num : ℚ) < 2 ^ ((num.log2 : Int) + 1) := hnum₂
      _ = 2 ^ (((54 : Nat) : Int) + g) * 2 ^ (den.log2 : Int) := by rw [← zpow_add₀ htwo]; congr 1; omega
      _ ≤ 2 ^ (((54 : Nat) : Int) + g) * den := by gcongr

theorem leads_roundingExponent (hnum : num ≠ 0) (hden : den ≠ 0) :
    Leads (num / den) (roundingExponent num den) := by
  obtain ⟨hlow, hhigh⟩ := bounds_log2_sub hnum hden
  rw [roundingExponent]
  generalize (num.log2 : Int) - den.log2 - 53 = g at hlow hhigh ⊢
  have hdigits := le_div_scaled_iff num hden (max leastExponent g) (2 ^ 53)
  have hstep (e : Int) : (2 : ℚ) ^ 53 * 2 ^ (e + 1) = 2 ^ 54 * 2 ^ e := by rw [zpow_add_one₀ two_ne_zero]; ring
  have hstep' (e : Int) : (2 : ℚ) ^ 52 * 2 ^ (e + 1) = 2 ^ 53 * 2 ^ e := by rw [zpow_add_one₀ two_ne_zero]; ring
  have hmax : (2 : ℚ) ^ 54 * 2 ^ g ≤ 2 ^ 54 * 2 ^ max leastExponent g := by
    gcongr
    · exact one_le_two
    · exact le_max_right _ _
  simp only [Nat.cast_pow, Nat.cast_ofNat] at hdigits
  split
  case isTrue h =>
    exact ⟨by omega, by rw [hstep]; exact hhigh.trans_le hmax, .inr (by rw [hstep']; exact hdigits.1 h)⟩
  case isFalse h =>
    refine ⟨le_max_left _ _, not_le.1 (mt hdigits.2 h), ?_⟩
    obtain hguess | hguess := max_choice leastExponent g
    · exact .inl hguess
    · exact .inr (hguess.symm ▸ hlow.le)

end Exponent

section Round

theorem roundHalfEven_eq (hden : den ≠ 0) (hlow : (m : ℚ) - 1 / 2 ≤ num / den) (hhigh : (num / den : ℚ) ≤ m + 1 / 2)
    (hodd : m % 2 = 1 → (m : ℚ) - 1 / 2 < num / den ∧ (num / den : ℚ) < m + 1 / 2) : roundHalfEven num den = m := by
  have hpos : (0 : ℚ) < den := by exact_mod_cast Nat.pos_of_ne_zero hden
  rw [le_div_iff₀ hpos] at hlow
  rw [div_le_iff₀ hpos] at hhigh
  rw [lt_div_iff₀ hpos, div_lt_iff₀ hpos] at hodd
  have hlow : 2 * (den * m) ≤ 2 * num + den := by
    have : (2 * (den * m) : ℚ) ≤ 2 * num + den := by linarith
    exact_mod_cast this
  have hhigh : 2 * num ≤ 2 * (den * m) + den := by
    have : (2 * num : ℚ) ≤ 2 * (den * m) + den := by linarith
    exact_mod_cast this
  have hodd : m % 2 = 1 → 2 * (den * m) < 2 * num + den ∧ 2 * num < 2 * (den * m) + den := by
    intro hm
    obtain ⟨hl, hh⟩ := hodd hm
    have hl : (2 * (den * m) : ℚ) < 2 * num + den := by linarith
    have hh : (2 * num : ℚ) < 2 * (den * m) + den := by linarith
    exact ⟨by exact_mod_cast hl, by exact_mod_cast hh⟩
  have hdiv : den * (num / den) + num % den = num := Nat.div_add_mod num den
  have hmod : num % den < den := Nat.mod_lt num (Nat.pos_of_ne_zero hden)
  obtain hless | rfl | hmore : m < num / den ∨ m = num / den ∨ num / den < m := Nat.lt_trichotomy _ _
  · have hstep : den * (m + 1) ≤ den * (num / den) := Nat.mul_le_mul_left den hless
    rw [Nat.mul_add] at hstep
    omega
  · rw [roundHalfEven]
    grind
  · have hstep : den * (num / den + 1) ≤ den * m := Nat.mul_le_mul_left den hmore
    have hnext : m = num / den + 1 := by
      by_contra hne
      have hstep : den * (num / den + 2) ≤ den * m := Nat.mul_le_mul_left den (by omega)
      rw [Nat.mul_add] at hstep
      omega
    subst hnext
    rw [Nat.mul_add] at *
    rw [roundHalfEven]
    grind

theorem ofFraction_eq (negative : Bool) (hnum : num ≠ 0) :
    ofFraction negative num den =
      let e := roundingExponent num den
      let m := roundHalfEven (scaled num den e).1 (scaled num den e).2
      if m = 2 ^ 53 then if greatestExponent < e + 1 then infinity negative else finite negative (2 ^ 52) (e + 1)
      else if greatestExponent < e then infinity negative else finite negative m e := by
  rw [ofFraction, if_neg hnum]
  change (let e := roundingExponent num den
    let m := roundHalfEven (scaled num den e).1 (scaled num den e).2
    let p := if m = 2 ^ 53 then (2 ^ 52, e + 1) else (m, e)
    if greatestExponent < p.2 then infinity negative else finite negative p.1 p.2) = _
  generalize roundingExponent num den = e
  simp only
  split <;> rfl

def lowerGap (m : Nat) (e : Int) : ℚ := if m = 2 ^ 52 ∧ leastExponent < e then 1 / 4 else 1 / 2

theorem lowerGap_le (m : Nat) (e : Int) : lowerGap m e ≤ 1 / 2 := by
  rw [lowerGap]
  split <;> norm_num

theorem near_iff (hm : m ≠ 0) : Near m e q ↔
    if m % 2 = 0 then (m - lowerGap m e) * 2 ^ e ≤ q ∧ q ≤ (m + 1 / 2) * 2 ^ e
    else (m - lowerGap m e) * 2 ^ e < q ∧ q < (m + 1 / 2) * 2 ^ e := by
  have hquarter : (2 : ℚ) ^ (e - 2) = 2 ^ e / 4 := by rw [zpow_sub₀ two_ne_zero]; norm_num
  have hupper : ((4 * m + 2 : Nat) : ℚ) * 2 ^ (e - 2) = (m + 1 / 2) * 2 ^ e := by
    rw [hquarter]; push_cast; ring
  have hlower : ((if m = .pow 2 52 ∧ leastExponent < e then 4 * m - 1 else 4 * m - 2 : Nat) : ℚ) * 2 ^ (e - 2) =
      (m - lowerGap m e) * 2 ^ e := by
    rw [hquarter, lowerGap, Nat.pow_eq]
    split
    · rw [Nat.cast_sub (by omega)]; push_cast; ring
    · rw [Nat.cast_sub (by omega)]; push_cast; ring
  simp only [Near, quarters, hupper, hlower]

theorem Near.pos (hm : m ≠ 0) (h : Near m e q) : 0 < q := by
  have hone : (1 : ℚ) ≤ m := by exact_mod_cast Nat.one_le_iff_ne_zero.2 hm
  have hpow : (0 : ℚ) < (m - lowerGap m e) * 2 ^ e := mul_pos (by linarith [lowerGap_le m e]) (by positivity)
  rw [near_iff hm] at h
  split at h
  · exact hpow.trans_le h.1
  · exact hpow.trans h.1

theorem Near.bounds (hm : m ≠ 0) (h : Near m e q) :
    ((m - lowerGap m e) * 2 ^ e ≤ q ∧ q ≤ (m + 1 / 2) * 2 ^ e) ∧
      (m % 2 = 1 → (m - lowerGap m e) * 2 ^ e < q ∧ q < (m + 1 / 2) * 2 ^ e) := by
  rw [near_iff hm] at h
  split at h
  · exact ⟨h, by omega⟩
  · exact ⟨⟨h.1.le, h.2.le⟩, fun _ => h⟩

theorem roundHalfEven_scaled (hden : den ≠ 0) (hlow : (m - 1 / 2) * 2 ^ e ≤ (num / den : ℚ))
    (hhigh : (num / den : ℚ) ≤ (m + 1 / 2) * 2 ^ e)
    (hodd : m % 2 = 1 → (m - 1 / 2) * 2 ^ e < (num / den : ℚ) ∧ (num / den : ℚ) < (m + 1 / 2) * 2 ^ e) :
    roundHalfEven (scaled num den e).1 (scaled num den e).2 = m := by
  have hpow : (0 : ℚ) < 2 ^ e := by positivity
  rw [← le_div_iff₀ hpow, ← scaled_eq] at hlow
  rw [← div_le_iff₀ hpow, ← scaled_eq] at hhigh
  rw [← lt_div_iff₀ hpow, ← div_lt_iff₀ hpow, ← scaled_eq] at hodd
  exact roundHalfEven_eq (scaled_pos num hden e).ne' hlow hhigh hodd

theorem ofFraction_of_near {negative : Bool} (hx : Canonical (finite negative m e)) (hm : m ≠ 0) (hden : den ≠ 0)
    (h : Near m e (num / den)) : ofFraction negative num den = finite negative m e := by
  obtain ⟨hlt, hleast, hgreatest, hdigits⟩ := hx
  have hnum : num ≠ 0 := by
    rintro rfl
    simpa using h.pos hm
  obtain ⟨⟨hlow, hhigh⟩, hodd⟩ := h.bounds hm
  have hpow : (0 : ℚ) < 2 ^ e := by positivity
  have hexponent := leads_roundingExponent hnum hden
  rw [ofFraction_eq negative hnum]
  generalize roundingExponent num den = f at hexponent ⊢
  by_cases habove : e = leastExponent ∨ 2 ^ 52 * 2 ^ e ≤ (num / den : ℚ)
  · have hbelow : (num / den : ℚ) < 2 ^ 53 * 2 ^ e := by
      have hltq : (m : ℚ) + 1 ≤ 2 ^ 53 := by exact_mod_cast hlt
      calc (num / den : ℚ) ≤ (m + 1 / 2) * 2 ^ e := hhigh
        _ < 2 ^ 53 * 2 ^ e := by gcongr; linarith
    obtain rfl := hexponent.eq ⟨hleast, hbelow, habove⟩
    have hgap : (m - 1 / 2) * 2 ^ f ≤ (m - lowerGap m f) * 2 ^ f := by
      gcongr
      exact lowerGap_le m f
    have hround : roundHalfEven (scaled num den f).1 (scaled num den f).2 = m :=
      roundHalfEven_scaled hden (hgap.trans hlow) hhigh fun hm => ⟨hgap.trans_lt (hodd hm).1, (hodd hm).2⟩
    simp only [hround]
    rw [if_neg hlt.ne, if_neg (by omega)]
  · -- Just below the least significand the fraction has one digit more, and the rounding takes it away again.
    rw [not_or, not_le] at habove
    obtain ⟨hne, habove⟩ := habove
    have hleastDigits : m = 2 ^ 52 := by
      by_contra hmore
      have hmore : 2 ^ 52 + 1 ≤ m := by omega
      have hcast : (2 : ℚ) ^ 52 + 1 ≤ m := by exact_mod_cast hmore
      refine absurd (?_ : 2 ^ 52 * 2 ^ e ≤ (num / den : ℚ)) (not_le.2 habove)
      calc (2 : ℚ) ^ 52 * 2 ^ e ≤ (m - lowerGap m e) * 2 ^ e := by
            gcongr
            linarith [lowerGap_le m e]
        _ ≤ num / den := hlow
    subst hleastDigits
    have hgap : lowerGap (2 ^ 52) e = 1 / 4 := if_pos ⟨rfl, by omega⟩
    have hpred : (2 : ℚ) ^ e = 2 * 2 ^ (e - 1) := by rw [zpow_sub_one₀ two_ne_zero]; ring
    rw [hgap] at hlow
    rw [hpred] at hlow habove
    push_cast at hlow
    obtain rfl := hexponent.eq (f := e - 1) ⟨by omega, by linarith, .inr (by linarith)⟩
    have hround : roundHalfEven (scaled num den (e - 1)).1 (scaled num den (e - 1)).2 = 2 ^ 53 := by
      refine roundHalfEven_scaled hden ?_ ?_ fun hodd => absurd hodd (by norm_num)
      · push_cast
        linarith
      · push_cast
        linarith
    simp only [hround]
    rw [if_pos trivial, if_neg (by omega), Int.sub_add_cancel]

end Round

end Kitting.Double
