import AgentContent.Number.Binary64
import Mathlib.Tactic

/-!
# AgentContent.Proofs.Number.Rounding

Rounding a fraction to the nearest number. A fraction near a finite number, that is between the
midpoints to the neighbours of the number, is rounded to this number.

* `Binary64.Near`: the fractions between the midpoints.
* `Binary64.ofRatio_of_near`: they are rounded to the number.
* `Binary64.ofDecimal_of_near`: the same for decimals, which are cut off far from all numbers.
* `Binary64.isFinite_ofInt`: integers of 64 bits are rounded to finite numbers.
-/

namespace AgentContent
namespace Binary64

/-! ## The parts of a number -/

theorem ofMagnitude_parts {x : Binary64} (hf : x.isFinite = true) :
    ofMagnitude x.isNegative ((x.scale + 1074).toNat * hiddenUnit + x.significand) = x := by
  have hlt := x.bits.toNat_lt
  have hfield : x.exponentField ≠ 2047 := by simpa [isFinite] using hf
  have hmag : (x.scale + 1074).toNat * hiddenUnit + x.significand =
      x.exponentField * hiddenUnit + x.fraction := by
    simp only [scale, significand]
    split_ifs with h
    · rw [h]; rfl
    · have : ((x.exponentField : Int) - 1075 + 1074).toNat = x.exponentField - 1 := by omega
      rw [this, Nat.sub_mul]
      have := Nat.mul_le_mul_right hiddenUnit (Nat.one_le_iff_ne_zero.2 h)
      omega
  have hbits : (if x.isNegative then signUnit + (x.exponentField * hiddenUnit + x.fraction)
      else x.exponentField * hiddenUnit + x.fraction) = x.bits.toNat := by
    have hE : x.exponentField = x.bits.toNat / 4503599627370496 % 2048 := rfl
    have hF : x.fraction = x.bits.toNat % 4503599627370496 := rfl
    have hH : hiddenUnit = 4503599627370496 := rfl
    have hS : signUnit = 9223372036854775808 := rfl
    rw [hH, hS]
    by_cases hneg : signUnit ≤ x.bits.toNat
    · rw [if_pos (by simpa [isNegative] using hneg)]; omega
    · rw [if_neg (by simpa [isNegative] using hneg)]; omega
  rw [hmag, ofMagnitude, hbits, UInt64.ofNat_toNat]

theorem significand_lt (x : Binary64) : x.significand < 2 * hiddenUnit := by
  simp only [significand, fraction, hiddenUnit]
  split_ifs <;> omega

theorem le_significand {x : Binary64} (h : x.exponentField ≠ 0) : hiddenUnit ≤ x.significand := by
  simp only [significand, h, if_false]
  omega

theorem scale_ge (x : Binary64) : -1074 ≤ x.scale := by
  simp only [scale]
  split_ifs <;> omega

theorem scale_le {x : Binary64} (hf : x.isFinite = true) : x.scale ≤ 971 := by
  have hlt : x.exponentField < 2048 := Nat.mod_lt _ (by decide)
  simp only [isFinite, bne_iff_ne, ne_eq] at hf
  simp only [scale]
  split_ifs <;> omega

/-! ## Rounding to integers -/

theorem roundHalfEven_eq {a b m : Nat} (hb : 0 < b) (lo : 2 * m * b ≤ 2 * a + b)
    (hi : 2 * a ≤ 2 * m * b + b)
    (odd : m % 2 = 1 → 2 * m * b < 2 * a + b ∧ 2 * a < 2 * m * b + b) : roundHalfEven a b = m := by
  have hdiv := Nat.div_add_mod a b
  have hmod := Nat.mod_lt a hb
  simp only [roundHalfEven]
  generalize hw : a / b = w at hdiv ⊢
  generalize a % b = r at hdiv hmod ⊢
  have hcases : w = m ∨ w + 1 = m := by
    rcases Nat.lt_trichotomy w m with h | h | h
    · right
      by_contra hne
      have : w + 2 ≤ m := by omega
      have := Nat.mul_le_mul_right b this
      nlinarith
    · exact .inl h
    · exfalso
      have : m + 1 ≤ w := h
      have hmul := Nat.mul_le_mul_right b this
      by_cases hr : r = 0 ∧ w = m + 1
      · obtain ⟨rfl, rfl⟩ := hr
        nlinarith
      · nlinarith
  rcases hcases with rfl | rfl
  · have hlo : 2 * r ≤ b := by nlinarith
    have hodd : w % 2 = 1 → 2 * r < b := fun h => by have := (odd h).2; nlinarith
    split_ifs <;> omega
  · have hhi : b ≤ 2 * r := by nlinarith
    have hodd : (w + 1) % 2 = 1 → b < 2 * r := fun h => by have := (odd h).1; nlinarith
    split_ifs <;> omega

/-! ## Powers of two -/

theorem scaleTwo_pos (num : Nat) {den : Nat} (hd : 0 < den) (e : Int) : 0 < (scaleTwo num den e).2 := by
  simp only [scaleTwo]
  split_ifs
  · exact hd
  · exact Nat.mul_pos hd (Nat.pow_pos (by decide))

theorem scaleTwo_ratio (num : Nat) {den : Nat} (hd : 0 < den) (e : Int) :
    ((scaleTwo num den e).1 : ℚ) / (scaleTwo num den e).2 = num / den * 2 ^ e := by
  have hd' : (den : ℚ) ≠ 0 := by exact_mod_cast hd.ne'
  simp only [scaleTwo, Nat.pow_eq]
  split_ifs with h
  · obtain ⟨k, rfl⟩ := Int.eq_ofNat_of_zero_le h
    simp only [Int.toNat_natCast, zpow_natCast]
    push_cast
    field_simp
  · obtain ⟨k, hk⟩ := Int.eq_ofNat_of_zero_le (show 0 ≤ -e by omega)
    obtain rfl : e = -(k : Int) := by omega
    simp only [neg_neg, Int.toNat_natCast, zpow_neg, zpow_natCast]
    push_cast
    field_simp

theorem floorLogTwo_spec {num den : Nat} (hn : 0 < num) (hd : 0 < den) :
    (2 : ℚ) ^ floorLogTwo num den ≤ num / den ∧ (num : ℚ) / den < 2 ^ (floorLogTwo num den + 1) := by
  have hd' : (0 : ℚ) < den := by exact_mod_cast hd
  have hnlo : (2 : ℚ) ^ Nat.log2 num ≤ num := by exact_mod_cast Nat.log2_self_le hn.ne'
  have hnhi : (num : ℚ) < 2 ^ (Nat.log2 num + 1) := by exact_mod_cast Nat.lt_log2_self
  have hdlo : (2 : ℚ) ^ Nat.log2 den ≤ den := by exact_mod_cast Nat.log2_self_le hd.ne'
  have hdhi : (den : ℚ) < 2 ^ (Nat.log2 den + 1) := by exact_mod_cast Nat.lt_log2_self
  set g : Int := (Nat.log2 num : Int) - (Nat.log2 den : Int) with hg
  have hlow : (2 : ℚ) ^ (g - 1) ≤ num / den := by
    rw [le_div_iff₀ hd']
    calc (2 : ℚ) ^ (g - 1) * den ≤ 2 ^ (g - 1) * 2 ^ (Nat.log2 den + 1) := by gcongr
      _ = 2 ^ Nat.log2 num := by
        rw [← zpow_natCast, ← zpow_natCast, ← zpow_add₀ (by norm_num)]
        congr 1
        push_cast
        omega
      _ ≤ num := hnlo
  have hhigh : (num : ℚ) / den < 2 ^ (g + 1) := by
    rw [div_lt_iff₀ hd']
    calc (num : ℚ) < 2 ^ (Nat.log2 num + 1) := hnhi
      _ = 2 ^ (g + 1) * 2 ^ Nat.log2 den := by
        rw [← zpow_natCast, ← zpow_natCast, ← zpow_add₀ (by norm_num)]
        congr 1
        push_cast
        omega
      _ ≤ 2 ^ (g + 1) * den := by gcongr
  have hratio := scaleTwo_ratio num hd (-g)
  have hpos := scaleTwo_pos num hd (-g)
  have hpos' : (0 : ℚ) < (scaleTwo num den (-g)).2 := by exact_mod_cast hpos
  have hcmp : ((scaleTwo num den (-g)).1 < (scaleTwo num den (-g)).2) ↔ (num : ℚ) / den < 2 ^ g := by
    rw [← Nat.cast_lt (α := ℚ), ← div_lt_one hpos', hratio, zpow_neg, ← div_eq_mul_inv,
      div_lt_one (by positivity)]
  simp only [floorLogTwo]
  rw [← hg]
  split_ifs with h
  · exact ⟨hlow, by simpa using hcmp.1 h⟩
  · exact ⟨not_lt.1 (fun hlt => h (hcmp.2 hlt)), hhigh⟩

theorem lt_of_two_zpow_lt {j k : Int} {r : ℚ} (h₁ : (2 : ℚ) ^ j ≤ r) (h₂ : r < 2 ^ k) : j < k :=
  (zpow_lt_zpow_iff_right₀ (by norm_num)).1 (lt_of_le_of_lt h₁ h₂)

/-! ## Near a number -/

/-- The midpoint to the neighbour below, in units of the last place of the significand. The
neighbour is half a unit away where the exponent changes. -/
def lower (x : Binary64) : ℚ :=
  if x.significand = hiddenUnit ∧ 1 < x.exponentField then x.significand - 1 / 4
  else x.significand - 1 / 2

/-- The fraction lies between the midpoints to the neighbours of the number, which count themselves
when the significand is even. -/
structure Near (x : Binary64) (r : ℚ) : Prop where
  le : x.lower * 2 ^ x.scale ≤ r
  ge : r ≤ (x.significand + 1 / 2) * 2 ^ x.scale
  odd : x.significand % 2 = 1 → x.lower * 2 ^ x.scale < r ∧ r < (x.significand + 1 / 2) * 2 ^ x.scale

theorem half_le_lower (x : Binary64) : (x.significand : ℚ) - 1 / 2 ≤ x.lower := by
  simp only [lower]
  split_ifs <;> linarith

/-- Rounding to the scale of the number itself. -/
theorem round_at_scale {x : Binary64} {r : ℚ} (h : Near x r) {a b : Nat} (hb : 0 < b)
    (hab : (a : ℚ) / b = r * 2 ^ (-x.scale)) : roundHalfEven a b = x.significand := by
  have hb' : (0 : ℚ) < b := by exact_mod_cast hb
  have hpow : (0 : ℚ) < 2 ^ x.scale := by positivity
  have ha : (a : ℚ) * 2 ^ x.scale = r * b := by
    rw [div_eq_iff hb'.ne', zpow_neg] at hab
    rw [hab]
    field_simp
  have hlow := half_le_lower x
  have hlo : ((x.significand : ℚ) - 1 / 2) * b ≤ a := by
    refine le_of_mul_le_mul_right ?_ hpow
    rw [ha]
    nlinarith [h.le, mul_le_mul_of_nonneg_right hlow hpow.le]
  have hhi : (a : ℚ) ≤ (x.significand + 1 / 2) * b := by
    refine le_of_mul_le_mul_right ?_ hpow
    rw [ha]
    nlinarith [h.ge]
  refine roundHalfEven_eq hb ?_ ?_ fun ho => ⟨?_, ?_⟩
  · have : (2 * x.significand * b : ℚ) ≤ 2 * a + b := by linarith
    exact_mod_cast this
  · have : (2 * a : ℚ) ≤ 2 * x.significand * b + b := by linarith
    exact_mod_cast this
  · have hlt : ((x.significand : ℚ) - 1 / 2) * b < a := by
      refine lt_of_mul_lt_mul_right ?_ hpow.le
      rw [ha]
      nlinarith [(h.odd ho).1, mul_le_mul_of_nonneg_right hlow hpow.le]
    have : (2 * x.significand * b : ℚ) < 2 * a + b := by linarith
    exact_mod_cast this
  · have hlt : (a : ℚ) < (x.significand + 1 / 2) * b := by
      refine lt_of_mul_lt_mul_right ?_ hpow.le
      rw [ha]
      nlinarith [(h.odd ho).2]
    have : (2 * a : ℚ) < 2 * x.significand * b + b := by linarith
    exact_mod_cast this

/-- Rounding to the finer scale below a power of two. -/
theorem round_below_scale {x : Binary64} {r : ℚ} (h : Near x r) (hm : x.significand = hiddenUnit)
    (hE : 1 < x.exponentField) (hr : r < x.significand * 2 ^ x.scale) {a b : Nat} (hb : 0 < b)
    (hab : (a : ℚ) / b = r * 2 ^ (-(x.scale - 1))) : roundHalfEven a b = 2 * hiddenUnit := by
  have hb' : (0 : ℚ) < b := by exact_mod_cast hb
  have hpow : (0 : ℚ) < 2 ^ x.scale := by positivity
  have ha : (a : ℚ) * 2 ^ x.scale = 2 * (r * b) := by
    rw [div_eq_iff hb'.ne', neg_sub, sub_eq_add_neg, zpow_add₀ (by norm_num), zpow_neg] at hab
    rw [hab]
    field_simp
  have hlow : x.lower = x.significand - 1 / 4 := by simp only [lower, hm, hE, and_self, if_true]
  have hrlow := mul_le_mul_of_nonneg_right h.le hb'.le
  rw [hlow] at hrlow
  have hlo : (2 * (x.significand : ℚ) - 1 / 2) * b ≤ a := by
    refine le_of_mul_le_mul_right ?_ hpow
    rw [ha]
    linarith
  have hhi : (a : ℚ) ≤ 2 * x.significand * b := by
    refine le_of_mul_le_mul_right ?_ hpow
    rw [ha]
    nlinarith
  rw [hm] at hlo hhi
  refine roundHalfEven_eq hb ?_ ?_ fun ho => absurd ho (by decide)
  · have : (2 * (2 * hiddenUnit : Nat) * b : ℚ) ≤ 2 * a + b := by push_cast; linarith
    exact_mod_cast this
  · have : (2 * a : ℚ) ≤ 2 * (2 * hiddenUnit : Nat) * b + b := by push_cast; linarith
    exact_mod_cast this

theorem hiddenUnit_cast : ((hiddenUnit : Nat) : ℚ) = 2 ^ (52 : Int) := by norm_num [hiddenUnit]

/-- A fraction near a number is below the next power of two. -/
theorem near_lt {x : Binary64} {r : ℚ} (h : Near x r) : r < 2 ^ (x.scale + 53) := by
  have hm : (x.significand : ℚ) + 1 ≤ 2 ^ (53 : Int) := by
    have hn : x.significand + 1 ≤ 2 ^ 53 := x.significand_lt
    exact_mod_cast hn
  have hpow : (0 : ℚ) < 2 ^ x.scale := by positivity
  rw [zpow_add₀ (by norm_num)]
  nlinarith [h.ge, mul_le_mul_of_nonneg_right hm hpow.le]

theorem ofRatio_of_near {x : Binary64} (hf : x.isFinite = true) {num den : Nat} (hn : 0 < num)
    (hd : 0 < den) (h : Near x (num / den)) : ofRatio x.isNegative num den = x := by
  obtain ⟨hlog, hlog'⟩ := floorLogTwo_spec hn hd
  have hup := lt_of_two_zpow_lt hlog (near_lt h)
  have hscale := x.scale_ge
  have hsub : x.exponentField = 0 → x.scale = -1074 := fun hE => by simp [scale, hE]
  have hparts := ofMagnitude_parts hf
  have hle := scale_le hf
  have hsig := x.significand_lt
  have hunit : hiddenUnit = 4503599627370496 := rfl
  have hmag : (x.scale + 1074).toNat * hiddenUnit + x.significand ≤ 2047 * hiddenUnit := by
    have : (x.scale + 1074).toNat ≤ 2045 := by omega
    have := Nat.mul_le_mul_right hiddenUnit this
    omega
  simp only [ofRatio, Nat.pos_iff_ne_zero.1 hn, if_false]
  -- below a power of two the scale of the fraction is one less than that of the number
  by_cases hbelow : floorLogTwo num den - 52 < x.scale ∧ x.exponentField ≠ 0 ∧ -1074 < x.scale
  · obtain ⟨hlt, hE0, hs⟩ := hbelow
    have hpow : (0 : ℚ) < 2 ^ x.scale := by positivity
    have hr : (num : ℚ) / den < 2 ^ (52 : Int) * 2 ^ x.scale := by
      refine lt_of_lt_of_le hlog' ?_
      rw [← zpow_add₀ (by norm_num)]
      exact zpow_le_zpow_right₀ (by norm_num) (by omega)
    have hge := le_significand hE0
    have hm : x.significand = hiddenUnit := by
      have : ((x.significand : ℚ) - 1 / 2) * 2 ^ x.scale < 2 ^ (52 : Int) * 2 ^ x.scale :=
        lt_of_le_of_lt (le_trans (mul_le_mul_of_nonneg_right (half_le_lower x) hpow.le) h.le) hr
      have := lt_of_mul_lt_mul_right this hpow.le
      rw [← hiddenUnit_cast] at this
      have : (x.significand : ℚ) < hiddenUnit + 1 := by linarith
      have : x.significand < hiddenUnit + 1 := by exact_mod_cast this
      omega
    have hE : 1 < x.exponentField := by
      simp only [scale, hE0, if_false] at hs
      omega
    have hr' : (num : ℚ) / den < x.significand * 2 ^ x.scale := by
      rw [hm, hiddenUnit_cast]; exact hr
    have hlow : (2 : ℚ) ^ (x.scale + 51) ≤ num / den := by
      refine le_trans ?_ h.le
      have hlow : x.lower = x.significand - 1 / 4 := by simp only [lower, hm, hE, and_self, if_true]
      rw [hlow, hm, hiddenUnit_cast, zpow_add₀ (by norm_num), mul_comm]
      refine mul_le_mul_of_nonneg_right ?_ hpow.le
      norm_num
    have hlog51 := lt_of_two_zpow_lt hlow hlog'
    have he : max (floorLogTwo num den - 52) (-1074) = x.scale - 1 := by omega
    have hround := round_below_scale h hm hE hr' (scaleTwo_pos num hd (-(x.scale - 1)))
      (scaleTwo_ratio num hd _)
    have hnext : (x.scale - 1 + 1074).toNat * hiddenUnit + 2 * hiddenUnit =
        (x.scale + 1074).toNat * hiddenUnit + x.significand := by
      have : (x.scale + 1074).toNat = (x.scale - 1 + 1074).toNat + 1 := by omega
      rw [this, hm, Nat.add_mul]
      omega
    rw [he, hround, hnext, Nat.min_eq_left hmag, hparts]
  · have he : max (floorLogTwo num den - 52) (-1074) = x.scale := by
      by_cases hE0 : x.exponentField = 0
      · have := hsub hE0; omega
      · simp only [hE0, ne_eq, not_false_eq_true, true_and, not_and, not_lt] at hbelow
        omega
    have hround := round_at_scale h (scaleTwo_pos num hd (-x.scale)) (scaleTwo_ratio num hd _)
    rw [he, hround, Nat.min_eq_left hmag, hparts]

/-! ## Decimals -/

theorem digits_bounds {n : Nat} (hn : 0 < n) (e : Int) :
    (10 : ℚ) ^ (e + (Nat.toDigits 10 n).length - 1) ≤ n * 10 ^ e ∧
      (n : ℚ) * 10 ^ e < 10 ^ (e + (Nat.toDigits 10 n).length) := by
  have hlen : 0 < (Nat.toDigits 10 n).length := Nat.length_toDigits_pos
  have hhi : n < 10 ^ (Nat.toDigits 10 n).length :=
    (Nat.length_toDigits_le_iff (by decide) hlen).1 le_rfl
  have hlo : 10 ^ ((Nat.toDigits 10 n).length - 1) ≤ n := by
    by_cases h1 : (Nat.toDigits 10 n).length = 1
    · rw [h1]; exact hn
    · by_contra hlt
      have := (Nat.length_toDigits_le_iff (by decide) (by omega)).2 (not_le.1 hlt)
      omega
  have hpow : (0 : ℚ) < 10 ^ e := by positivity
  constructor
  · have he : e + (Nat.toDigits 10 n).length - 1 =
        (((Nat.toDigits 10 n).length - 1 : Nat) : Int) + e := by omega
    rw [he, zpow_add₀ (by norm_num), zpow_natCast]
    refine mul_le_mul_of_nonneg_right ?_ hpow.le
    exact_mod_cast hlo
  · rw [add_comm, zpow_add₀ (by norm_num), zpow_natCast]
    refine mul_lt_mul_of_pos_right ?_ hpow
    exact_mod_cast hhi

theorem two_pow_le_ten_pow : (2 : ℚ) ^ (1024 : Int) ≤ 10 ^ (309 : Int) := by
  have h : (2 : ℕ) ^ 1024 ≤ 10 ^ 309 := by decide +kernel
  exact_mod_cast h

theorem ten_pow_le_two_pow : (10 : ℚ) ^ (-330 : Int) ≤ 1 / 2 * 2 ^ (-1074 : Int) := by
  have h : (2 : ℕ) * 2 ^ 1074 ≤ 10 ^ 330 := by decide +kernel
  have h' : (2 : ℚ) * 2 ^ 1074 ≤ 10 ^ 330 := by exact_mod_cast h
  have hinv := inv_anti₀ (by positivity) h'
  rw [mul_inv, ← one_div (2 : ℚ)] at hinv
  exact hinv

/-- A decimal near a number other than zero is not so far out that it is cut off. -/
theorem near_point {x : Binary64} (hf : x.isFinite = true) (hm : 0 < x.significand) {n : Nat}
    (hn : 0 < n) {e : Int} (h : Near x (n * 10 ^ e)) :
    -330 ≤ e + (Nat.toDigits 10 n).length ∧ e + (Nat.toDigits 10 n).length ≤ 310 := by
  obtain ⟨hlo, hhi⟩ := digits_bounds hn e
  constructor
  · have hm' : (1 : ℚ) ≤ x.significand := by exact_mod_cast hm
    have hpow : (2 : ℚ) ^ (-1074 : Int) ≤ 2 ^ x.scale :=
      zpow_le_zpow_right₀ (by norm_num) x.scale_ge
    have hhalf : (1 : ℚ) / 2 ≤ x.lower := by linarith [half_le_lower x]
    have : (10 : ℚ) ^ (-330 : Int) < 10 ^ (e + (Nat.toDigits 10 n).length) := by
      refine lt_of_le_of_lt (le_trans ten_pow_le_two_pow ?_) hhi
      exact le_trans (mul_le_mul hhalf hpow (by positivity) (by linarith)) h.le
    have := (zpow_lt_zpow_iff_right₀ (by norm_num)).1 this
    omega
  · have hscale := scale_le hf
    have hpow : (2 : ℚ) ^ (x.scale + 53) ≤ 2 ^ (1024 : Int) :=
      zpow_le_zpow_right₀ (by norm_num) (by omega)
    have := (zpow_lt_zpow_iff_right₀ (by norm_num)).1
      (lt_of_le_of_lt hlo (lt_of_lt_of_le (near_lt h) (le_trans hpow two_pow_le_ten_pow)))
    omega

theorem ofDecimal_of_near {x : Binary64} (hf : x.isFinite = true) (hm : 0 < x.significand) {n : Nat}
    (hn : 0 < n) {e : Int} (h : Near x (n * 10 ^ e)) : ofDecimal x.isNegative n e = x := by
  obtain ⟨hlo, hhi⟩ := near_point hf hm hn h
  have hlo' : ¬e + (Nat.toDigits 10 n).length < -330 := by omega
  have hhi' : ¬310 < e + ((Nat.toDigits 10 n).length : Int) := by omega
  simp only [ofDecimal, Nat.pos_iff_ne_zero.1 hn, hlo', hhi', decide_false, Bool.or_self,
    Bool.false_eq_true, if_false, Nat.pow_eq]
  split_ifs with he
  · obtain ⟨k, rfl⟩ := Int.eq_ofNat_of_zero_le he
    refine ofRatio_of_near hf (Nat.mul_pos hn (Nat.pow_pos (by decide))) (by decide) ?_
    simp only [Int.toNat_natCast]
    push_cast
    simpa using h
  · obtain ⟨k, hk⟩ := Int.eq_ofNat_of_zero_le (show 0 ≤ -e by omega)
    obtain rfl : e = -(k : Int) := by omega
    refine ofRatio_of_near hf hn (Nat.pow_pos (by decide)) ?_
    simp only [neg_neg, Int.toNat_natCast]
    push_cast
    simpa [div_eq_mul_inv] using h

/-! ## Finite numbers -/

theorem isFinite_ofMagnitude {m : Nat} (h : m < 2047 * hiddenUnit) (negative : Bool) :
    (ofMagnitude negative m).isFinite = true := by
  have hH : hiddenUnit = 4503599627370496 := rfl
  have hS : signUnit = 9223372036854775808 := rfl
  have hfield : (ofMagnitude negative m).exponentField < 2047 := by
    rw [hH] at h
    simp only [exponentField, ofMagnitude, hH, hS, UInt64.toNat_ofNat']
    cases negative
    · simp only [Bool.false_eq_true, if_false]
      omega
    · simp only [if_true]
      omega
  simp [isFinite, Nat.ne_of_lt hfield]

theorem isNaN_ofMagnitude {m : Nat} (h : m ≤ 2047 * hiddenUnit) (negative : Bool) :
    (ofMagnitude negative m).isNaN = false := by
  rcases Nat.lt_or_eq_of_le h with h | rfl
  · have hfinite := isFinite_ofMagnitude h negative
    simp only [isFinite, bne_iff_ne] at hfinite
    simp [isNaN, hfinite]
  · cases negative <;> decide +kernel

/-- A float is finite, no number or one of the two infinite ones. -/
theorem isFinite_iff_ne_infinity {x : Binary64} (h : x.isNaN = false) :
    x.isFinite = true ↔ ∀ negative, x ≠ infinity negative := by
  constructor
  · rintro hf negative rfl
    cases negative <;> revert hf <;> decide +kernel
  · intro hne
    by_contra hf
    simp only [isFinite, bne_iff_ne, ne_eq, not_not] at hf
    simp only [isNaN, hf, beq_self_eq_true, Bool.true_and, bne_eq_false_iff_eq] at h
    refine hne x.isNegative (congrArg Binary64.mk ?_)
    have hlt := x.bits.toNat_lt
    have hE : x.exponentField = x.bits.toNat / 4503599627370496 % 2048 := rfl
    have hF : x.fraction = x.bits.toNat % 4503599627370496 := rfl
    have hH : hiddenUnit = 4503599627370496 := rfl
    have hS : signUnit = 9223372036854775808 := rfl
    rw [← UInt64.ofNat_toNat (x := x.bits)]
    refine congrArg UInt64.ofNat ?_
    rw [hH, hS]
    by_cases hneg : signUnit ≤ x.bits.toNat
    · rw [if_pos (by simpa [isNegative] using hneg)]; omega
    · rw [if_neg (by simpa [isNegative] using hneg)]; omega

theorem isNaN_ofRatio (negative : Bool) (num den : Nat) :
    (ofRatio negative num den).isNaN = false := by
  unfold ofRatio
  split
  · exact isNaN_ofMagnitude (Nat.zero_le _) negative
  · exact isNaN_ofMagnitude (Nat.min_le_right _ _) negative

theorem isNaN_ofDecimal (negative : Bool) (digits : Nat) (exponent : Int) :
    (ofDecimal negative digits exponent).isNaN = false := by
  simp only [ofDecimal]
  split
  · exact isNaN_ofMagnitude (Nat.zero_le _) negative
  · split
    · exact isNaN_ofMagnitude (Nat.le_refl _) negative
    · split <;> exact isNaN_ofRatio _ _ _

theorem roundHalfEven_le {a b m : Nat} (hb : 0 < b) (h : a < m * b) : roundHalfEven a b ≤ m := by
  have hdiv : a / b < m := (Nat.div_lt_iff_lt_mul hb).2 h
  have hparity : a / b % 2 < 2 := Nat.mod_lt _ (by decide)
  simp only [roundHalfEven]
  split_ifs <;> omega

/-- Fractions below a power of two that is a number are rounded to numbers. -/
theorem isFinite_ofRatio {num den : Nat} (hd : 0 < den) (h : (num : ℚ) / den < 2 ^ (1023 : Int))
    (negative : Bool) : (ofRatio negative num den).isFinite = true := by
  by_cases hn : num = 0
  · rw [ofRatio, if_pos hn]
    exact isFinite_ofMagnitude (by decide) negative
  simp only [ofRatio, hn, if_false]
  obtain ⟨hlog, hlog'⟩ := floorLogTwo_spec (Nat.pos_of_ne_zero hn) hd
  have hk := lt_of_two_zpow_lt hlog h
  set e : Int := max (floorLogTwo num den - 52) (-1074) with he
  have hpos := scaleTwo_pos num hd (-e)
  have hpos' : (0 : ℚ) < (scaleTwo num den (-e)).2 := by exact_mod_cast hpos
  -- scaled down, the fraction has at most the places of a significand
  have hlt : ((scaleTwo num den (-e)).1 : ℚ) < 2 ^ (53 : Int) * (scaleTwo num den (-e)).2 := by
    rw [← div_lt_iff₀ hpos', scaleTwo_ratio num hd, zpow_neg, ← div_eq_mul_inv,
      div_lt_iff₀ (by positivity), ← zpow_add₀ (by norm_num)]
    exact lt_of_lt_of_le hlog' (zpow_le_zpow_right₀ (by norm_num) (by omega))
  have hnat : (scaleTwo num den (-e)).1 < 2 * hiddenUnit * (scaleTwo num den (-e)).2 := by
    exact_mod_cast hlt
  have hround := roundHalfEven_le hpos hnat
  have hmul : (e + 1074).toNat * hiddenUnit ≤ 2044 * hiddenUnit :=
    Nat.mul_le_mul_right _ (by omega)
  refine isFinite_ofMagnitude (lt_of_le_of_lt (Nat.min_le_left _ _) ?_) negative
  have hunit : hiddenUnit = 4503599627370496 := rfl
  omega

/-- Integers of 64 bits are rounded to numbers. -/
theorem isFinite_ofInt {n : Int} (h : n.natAbs < 2 ^ 64) : (ofInt n).isFinite = true := by
  refine isFinite_ofRatio (by decide) ?_ _
  have hq : ((n.natAbs : Nat) : ℚ) < 2 ^ (64 : Int) := by exact_mod_cast h
  rw [Nat.cast_one, div_one]
  exact hq.trans_le (zpow_le_zpow_right₀ (by norm_num) (by norm_num))

end Binary64
end AgentContent
