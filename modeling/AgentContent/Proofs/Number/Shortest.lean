import AgentContent.Number.Shortest
import AgentContent.Proofs.Number.Rounding

/-!
# AgentContent.Proofs.Number.Shortest

The shortest decimal of a finite number is near the number, so it reads back as the number.

* `onGrid?_near`: what a grid of decimals gives is near the number.
* `onGrid?_isSome`: a grid of 17 digits gives something.
* `shortest_near`: so does the search, and taking zeros from the end changes nothing.
-/

namespace AgentContent

open Binary64

/-! ## One grid -/

section Grid

/-- The steps of the grid of multiples of `10 ^ p`, and quarters of the last place of the number,
both as multiples of a common fraction. -/
def gridUnit (x : Binary64) (p : Int) : Nat :=
  Nat.pow 10 p.toNat * Nat.pow 2 (-(x.scale - 2)).toNat

def gridWeight (x : Binary64) (p : Int) : Nat :=
  Nat.pow 2 (x.scale - 2).toNat * Nat.pow 10 (-p).toNat

def lowQuarters (x : Binary64) : Nat :=
  if x.significand = hiddenUnit && 1 < x.exponentField then 4 * x.significand - 1
  else 4 * x.significand - 2

def gridReads (x : Binary64) (p : Int) (c : Nat) : Bool :=
  let low := lowQuarters x * gridWeight x p
  let high := (4 * x.significand + 2) * gridWeight x p
  if x.significand % 2 = 0 then low ≤ c * gridUnit x p && c * gridUnit x p ≤ high
  else low < c * gridUnit x p && c * gridUnit x p < high

def gridBelow (x : Binary64) (p : Int) : Nat :=
  4 * x.significand * gridWeight x p / gridUnit x p

/-- The nearer of the two points beside the number, when both read back. -/
def gridNearest (tie : Tie) (x : Binary64) (p : Int) : Nat :=
  let below := gridBelow x p
  let value := 4 * x.significand * gridWeight x p
  let down := value - below * gridUnit x p
  let up := (below + 1) * gridUnit x p - value
  if down < up then below
  else if up < down then below + 1
  else
    match tie with
    | .up => below + 1
    | .even => if below % 2 = 0 then below else below + 1

theorem gridNearest_eq (tie : Tie) (x : Binary64) (p : Int) :
    gridNearest tie x p = gridBelow x p ∨ gridNearest tie x p = gridBelow x p + 1 := by
  simp only [gridNearest]
  cases tie <;> split_ifs <;> simp

theorem onGrid?_eq (tie : Tie) (x : Binary64) (p : Int) :
    onGrid? tie x p =
      match gridReads x p (gridBelow x p), gridReads x p (gridBelow x p + 1) with
      | false, false => none
      | true, false => some (gridBelow x p)
      | false, true => some (gridBelow x p + 1)
      | true, true => some (gridNearest tie x p) := by
  have h : onGrid? tie x p =
      match gridReads x p (gridBelow x p), gridReads x p (gridBelow x p + 1) with
      | false, false => none
      | true, false => some (gridBelow x p)
      | false, true => some (gridBelow x p + 1)
      | true, true =>
        let below := gridBelow x p
        let value := 4 * x.significand * gridWeight x p
        let down := value - below * gridUnit x p
        let up := (below + 1) * gridUnit x p - value
        if down < up then some below
        else if up < down then some (below + 1)
        else
          match tie with
          | .up => some (below + 1)
          | .even => some (if below % 2 = 0 then below else below + 1) := rfl
  rw [h]
  cases gridReads x p (gridBelow x p) <;> cases gridReads x p (gridBelow x p + 1) <;> simp only
  simp only [gridNearest]
  cases tie <;> split_ifs <;> rfl

theorem onGrid?_reads {tie : Tie} {x : Binary64} {p : Int} {c : Nat}
    (h : onGrid? tie x p = some c) : gridReads x p c = true := by
  rw [onGrid?_eq] at h
  split at h
  · cases h
  · rename_i hb _; cases h; exact hb
  · rename_i _ ha; cases h; exact ha
  · rename_i hb ha
    cases h
    rcases gridNearest_eq tie x p with he | he
    · rw [he]; exact hb
    · rw [he]; exact ha

theorem onGrid?_isSome_of_reads {tie : Tie} {x : Binary64} {p : Int}
    (h : gridReads x p (gridBelow x p) = true ∨ gridReads x p (gridBelow x p + 1) = true) :
    (onGrid? tie x p).isSome = true := by
  rw [onGrid?_eq]
  split
  · rename_i hb ha
    rw [hb, ha] at h
    simp at h
  · rfl
  · rfl
  · rfl

/-- The common fraction. -/
theorem grid_scale (x : Binary64) (p : Int) : ∃ k : ℚ, 0 < k ∧
    (gridUnit x p : ℚ) = 10 ^ p * k ∧ 4 * (gridWeight x p : ℚ) = 2 ^ x.scale * k := by
  refine ⟨2 ^ (-(x.scale - 2)).toNat * 10 ^ (-p).toNat, by positivity, ?_, ?_⟩
  · have h10 : (10 : ℚ) ^ p.toNat = 10 ^ p * 10 ^ (-p).toNat := by
      rw [← zpow_natCast, ← zpow_natCast, ← zpow_add₀ (by norm_num)]
      congr 1
      omega
    simp only [gridUnit, Nat.pow_eq]
    push_cast
    rw [h10]
    ring
  · have h2 : 4 * (2 : ℚ) ^ (x.scale - 2).toNat = 2 ^ x.scale * 2 ^ (-(x.scale - 2)).toNat := by
      have h4 : (4 : ℚ) = 2 ^ (2 : Int) := by norm_num
      rw [h4, ← zpow_natCast, ← zpow_natCast, ← zpow_add₀ (by norm_num), ← zpow_add₀ (by norm_num)]
      congr 1
      omega
    simp only [gridWeight, Nat.pow_eq]
    push_cast
    rw [← mul_assoc, h2]
    ring

theorem lowQuarters_cast {x : Binary64} (hm : 0 < x.significand) :
    (lowQuarters x : ℚ) = 4 * x.lower := by
  simp only [lowQuarters, lower, Bool.and_eq_true, decide_eq_true_eq]
  split_ifs
  · rw [Nat.cast_sub (by omega)]; push_cast; ring
  · rw [Nat.cast_sub (by omega)]; push_cast; ring

theorem near_of_gridReads {x : Binary64} (hm : 0 < x.significand) {p : Int} {c : Nat}
    (h : gridReads x p c = true) : Near x (c * 10 ^ p) := by
  obtain ⟨k, hk, hunit, hweight⟩ := grid_scale x p
  have hlow : (lowQuarters x * gridWeight x p : ℚ) = x.lower * 2 ^ x.scale * k := by
    rw [lowQuarters_cast hm, mul_assoc _ _ k, ← hweight]; ring
  have hhigh : (((4 * x.significand + 2) * gridWeight x p : Nat) : ℚ) =
      (x.significand + 1 / 2) * 2 ^ x.scale * k := by
    push_cast
    rw [mul_assoc _ _ k, ← hweight]; ring
  have hc : (c * gridUnit x p : ℚ) = c * 10 ^ p * k := by rw [hunit]; ring
  have le_iff : lowQuarters x * gridWeight x p ≤ c * gridUnit x p ↔
      x.lower * 2 ^ x.scale ≤ c * 10 ^ p := by
    rw [← mul_le_mul_iff_left₀ hk, ← hlow, ← hc]; exact_mod_cast Iff.rfl
  have ge_iff : c * gridUnit x p ≤ (4 * x.significand + 2) * gridWeight x p ↔
      (c : ℚ) * 10 ^ p ≤ (x.significand + 1 / 2) * 2 ^ x.scale := by
    rw [← mul_le_mul_iff_left₀ hk, ← hhigh, ← hc]; exact_mod_cast Iff.rfl
  have lt_iff : lowQuarters x * gridWeight x p < c * gridUnit x p ↔
      x.lower * 2 ^ x.scale < c * 10 ^ p := by
    rw [← mul_lt_mul_iff_left₀ hk, ← hlow, ← hc]; exact_mod_cast Iff.rfl
  have gt_iff : c * gridUnit x p < (4 * x.significand + 2) * gridWeight x p ↔
      (c : ℚ) * 10 ^ p < (x.significand + 1 / 2) * 2 ^ x.scale := by
    rw [← mul_lt_mul_iff_left₀ hk, ← hhigh, ← hc]; exact_mod_cast Iff.rfl
  simp only [gridReads] at h
  split_ifs at h with heven
  · simp only [Bool.and_eq_true, decide_eq_true_eq] at h
    exact ⟨le_iff.1 h.1, ge_iff.1 h.2, fun ho => by omega⟩
  · simp only [Bool.and_eq_true, decide_eq_true_eq] at h
    exact ⟨(lt_iff.1 h.1).le, (gt_iff.1 h.2).le, fun _ => ⟨lt_iff.1 h.1, gt_iff.1 h.2⟩⟩

theorem onGrid?_near {tie : Tie} {x : Binary64} (hm : 0 < x.significand) {p : Int} {c : Nat}
    (h : onGrid? tie x p = some c) : Near x (c * 10 ^ p) :=
  near_of_gridReads hm (onGrid?_reads h)

theorem gridReads_of_lt {x : Binary64} {p : Int} {c : Nat}
    (hlo : lowQuarters x * gridWeight x p < c * gridUnit x p)
    (hhi : c * gridUnit x p < (4 * x.significand + 2) * gridWeight x p) : gridReads x p c = true := by
  simp only [gridReads]
  split_ifs
  · simp [hlo.le, hhi.le]
  · simp [hlo, hhi]

/-- A grid whose steps are fine enough for 17 digits has a point near the number. -/
theorem onGrid?_isSome {tie : Tie} {x : Binary64} (hm : 0 < x.significand) {p : Int}
    (hp : (10 : ℚ) ^ p * 10 ^ (16 : Nat) ≤ x.significand * 2 ^ x.scale) :
    (onGrid? tie x p).isSome = true := by
  obtain ⟨k, hk, hunit, hweight⟩ := grid_scale x p
  have hfine : gridUnit x p * 10 ^ 16 ≤ 4 * (x.significand * gridWeight x p) := by
    have h : (gridUnit x p : ℚ) * 10 ^ (16 : Nat) ≤ 4 * (x.significand * gridWeight x p) := by
      have := mul_le_mul_of_nonneg_right hp hk.le
      rw [hunit]
      nlinarith
    exact_mod_cast h
  have hunit_pos : 0 < gridUnit x p := by
    have : (0 : ℚ) < gridUnit x p := by rw [hunit]; positivity
    exact_mod_cast this
  have hweight_pos : 0 < gridWeight x p := by
    have h : (0 : ℚ) < 4 * gridWeight x p := by rw [hweight]; positivity
    have : (0 : ℚ) < gridWeight x p := by linarith
    exact_mod_cast this
  have hvalue : 4 * x.significand * gridWeight x p = 4 * (x.significand * gridWeight x p) :=
    Nat.mul_assoc _ _ _
  have hhigh : (4 * x.significand + 2) * gridWeight x p =
      4 * (x.significand * gridWeight x p) + 2 * gridWeight x p := by
    rw [Nat.add_mul, hvalue]
  have hdiv := Nat.div_add_mod' (4 * x.significand * gridWeight x p) (gridUnit x p)
  have hmod := Nat.mod_lt (4 * x.significand * gridWeight x p) hunit_pos
  have habove : (gridBelow x p + 1) * gridUnit x p = gridBelow x p * gridUnit x p + gridUnit x p :=
    Nat.succ_mul _ _
  rw [hvalue] at hdiv hmod
  have hbelow : gridBelow x p = 4 * (x.significand * gridWeight x p) / gridUnit x p := by
    rw [gridBelow, hvalue]
  rw [← hbelow] at hdiv
  generalize 4 * (x.significand * gridWeight x p) % gridUnit x p = rest at hdiv hmod
  apply onGrid?_isSome_of_reads
  by_cases hedge : x.significand = hiddenUnit ∧ 1 < x.exponentField
  · -- below a power of two the midpoint is nearer, and so is the next point of the grid
    have hlow : lowQuarters x * gridWeight x p + gridWeight x p =
        4 * (x.significand * gridWeight x p) := by
      have : lowQuarters x + 1 = 4 * x.significand := by
        simp only [lowQuarters, hedge, decide_true, Bool.and_self, if_true]
        simp only [hiddenUnit]
      rw [← Nat.succ_mul, Nat.succ_eq_add_one, this, hvalue]
    have hsize : x.significand * gridWeight x p = 4503599627370496 * gridWeight x p := by
      rw [hedge.1, hiddenUnit]
    exact .inr (gridReads_of_lt (by omega) (by omega))
  · have hlow : lowQuarters x * gridWeight x p + 2 * gridWeight x p =
        4 * (x.significand * gridWeight x p) := by
      have : lowQuarters x + 2 = 4 * x.significand := by
        simp only [lowQuarters, Bool.and_eq_true, decide_eq_true_eq, hedge, if_false]
        omega
      rw [← Nat.add_mul, this, hvalue]
    have hsize : x.significand * gridWeight x p ≤ 9007199254740991 * gridWeight x p :=
      Nat.mul_le_mul_right _ (by
        have h := x.significand_lt
        simp only [hiddenUnit] at h
        omega)
    rcases Nat.lt_or_ge rest (2 * gridWeight x p) with hrest | hrest
    · exact .inl (gridReads_of_lt (by omega) (by omega))
    · exact .inr (gridReads_of_lt (by omega) (by omega))

end Grid

/-! ## The search -/

/-- The logarithm is not too great, so 17 digits are enough. -/
theorem floorLogTen_le {num den : Nat} (hn : 0 < num) (hd : 0 < den) :
    (10 : ℚ) ^ floorLogTen num den ≤ num / den := by
  have hd' : (0 : ℚ) < den := by exact_mod_cast hd
  rw [le_div_iff₀ hd']
  by_cases h : den ≤ num
  · have hq : 0 < num / den := Nat.div_pos h hd
    have hlen : 0 < (Nat.toDigits 10 (num / den)).length := Nat.length_toDigits_pos
    have hle := (digits_bounds hq 0).1
    simp only [zero_add, zpow_zero, mul_one] at hle
    have hdiv : ((num / den : Nat) : ℚ) * den ≤ num := by
      exact_mod_cast Nat.div_mul_le_self num den
    simp only [floorLogTen, h, if_true]
    exact (mul_le_mul_of_nonneg_right hle hd'.le).trans hdiv
  · have hq : 0 < den / num := Nat.div_pos (by omega) hn
    have hlen : 0 < (Nat.toDigits 10 (den / num)).length := Nat.length_toDigits_pos
    simp only [floorLogTen, h, if_false, Nat.pow_eq]
    split_ifs with hfit
    · have hcast : (den : ℚ) ≤ num * 10 ^ ((Nat.toDigits 10 (den / num)).length - 1) := by
        exact_mod_cast hfit
      have he : -(((Nat.toDigits 10 (den / num)).length : Int) - 1) =
          -(((Nat.toDigits 10 (den / num)).length - 1 : Nat) : Int) := by omega
      rw [he, zpow_neg, zpow_natCast, inv_mul_le_iff₀ (by positivity), mul_comm]
      exact hcast
    · have hhi := (digits_bounds hq 0).2
      simp only [zero_add, zpow_zero, mul_one, zpow_natCast] at hhi
      have hlt : den < num * 10 ^ (Nat.toDigits 10 (den / num)).length := by
        have hq' : den / num < 10 ^ (Nat.toDigits 10 (den / num)).length := by exact_mod_cast hhi
        rw [Nat.mul_comm]
        exact (Nat.div_lt_iff_lt_mul hn).1 hq'
      have hcast : (den : ℚ) ≤ num * 10 ^ (Nat.toDigits 10 (den / num)).length := by
        exact_mod_cast hlt.le
      rw [zpow_neg, zpow_natCast, inv_mul_le_iff₀ (by positivity), mul_comm]
      exact hcast

def Decimal.value (d : Decimal) : ℚ :=
  d.digits * 10 ^ d.exponent

/-- Zeros at the end go from the digits into the exponent. -/
theorem Decimal.strip_value (fuel : Nat) (d : Decimal) : (d.strip fuel).value = d.value := by
  induction fuel generalizing d with
  | zero => rfl
  | succ fuel ih =>
    simp only [Decimal.strip]
    split_ifs with h
    · rw [ih]
      simp only [Bool.and_eq_true, bne_iff_ne, ne_eq, decide_eq_true_eq] at h
      have hdiv : d.digits = 10 * (d.digits / 10) := by omega
      have hcast : (d.digits : ℚ) = 10 * (d.digits / 10 : Nat) := by exact_mod_cast hdiv
      simp only [Decimal.value]
      rw [hcast, zpow_add_one₀ (by norm_num)]
      ring
    · rfl

theorem Binary64.Near.pos {x : Binary64} {r : ℚ} (h : Near x r) (hm : 0 < x.significand) : 0 < r := by
  have hlow : (0 : ℚ) < x.lower := by
    have := half_le_lower x
    have hm' : (1 : ℚ) ≤ x.significand := by exact_mod_cast hm
    linarith
  have hpow : (0 : ℚ) < 2 ^ x.scale := by positivity
  exact lt_of_lt_of_le (mul_pos hlow hpow) h.le

theorem Decimal.digits_pos {d : Decimal} (h : 0 < d.value) : 0 < d.digits := by
  rcases Nat.eq_zero_or_pos d.digits with hz | hp
  · simp [Decimal.value, hz] at h
  · exact hp

theorem Binary64.significand_pos {x : Binary64} (h : x.isZero = false) : 0 < x.significand := by
  simp only [isZero, Bool.and_eq_false_iff, beq_eq_false_iff_ne] at h
  simp only [significand, hiddenUnit]
  split_ifs with hE
  · rcases h with h | h
    · exact absurd hE h
    · omega
  · omega

/-- The shortest decimal is near the number. -/
theorem shortest_near (tie : Tie) {x : Binary64} (hz : x.isZero = false) :
    Near x (shortest tie x).value := by
  have hm := significand_pos hz
  have hratio := scaleTwo_ratio x.significand Nat.one_pos x.scale
  have hden : 0 < x.ratio.2 := scaleTwo_pos x.significand Nat.one_pos x.scale
  have hnum : 0 < x.ratio.1 := by
    simp only [ratio, scaleTwo]
    split_ifs
    · exact Nat.mul_pos hm (Nat.pow_pos (by decide))
    · exact hm
  have hlog := floorLogTen_le hnum hden
  rw [Nat.cast_one, div_one] at hratio
  change (x.ratio.1 : ℚ) / x.ratio.2 = _ at hratio
  rw [hratio] at hlog
  have hlast : ∃ c, onGrid? tie x (floorLogTen x.ratio.1 x.ratio.2 - (16 : Nat)) = some c := by
    refine Option.isSome_iff_exists.1 (onGrid?_isSome hm ?_)
    rw [← zpow_natCast (10 : ℚ) 16, ← zpow_add₀ (by norm_num), Int.sub_add_cancel]
    exact hlog
  obtain ⟨c, hc⟩ := hlast
  simp only [shortest, hz, Bool.false_eq_true, if_false]
  generalize hfound : List.findSome? _ (List.range 17) = found
  cases found with
  | none =>
    rw [List.findSome?_eq_none_iff] at hfound
    have h16 := hfound 16 (by decide)
    rw [hc] at h16
    cases h16
  | some d =>
    obtain ⟨n, -, hn⟩ := List.exists_of_findSome?_eq_some hfound
    rw [Option.map_eq_some_iff] at hn
    obtain ⟨c, hgrid, rfl⟩ := hn
    rw [Option.getD_some, Decimal.strip_value]
    exact onGrid?_near hm hgrid

end AgentContent
