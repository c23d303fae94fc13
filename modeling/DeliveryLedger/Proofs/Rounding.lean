import DeliveryLedger.Decimal.Shortest
import Mathlib.Algebra.Order.Field.Power
import Mathlib.Data.Int.Log
import Mathlib.Data.Rat.Floor
import Mathlib.Tactic.NormNum.Pow
/-!
Rounding to binary numbers depends on the rounded value alone.

The unit in the last place follows the binary logarithm of the quotient (`unitPower_eq`), so
`ofRatio` cannot tell apart two spellings of one quotient (`ofRatio_congr`), nor `ofDecimal`
two spellings of one decimal number (`ofDecimal_congr`).  A finite number is the rounding of
its own value, and so its shortest decimal reads back as the number (`ofDecimal_shortest`).
-/

namespace DeliveryLedger

/-! ### Quotients rounded to natural numbers -/

theorem divideToEven_mul_right (num den : Nat) {k : Nat} (hk : 0 < k) :
    divideToEven (num * k) (den * k) = divideToEven num den := by
  have hrest : 2 * (num % den * k) = 2 * (num % den) * k := (Nat.mul_assoc ..).symm
  unfold divideToEven
  simp only [Nat.mul_div_mul_right _ _ hk, Nat.mul_mod_mul_right, hrest,
    Nat.mul_lt_mul_right hk]

theorem divideToEven_congr {a b c d : Nat} (hb : 0 < b) (hd : 0 < d) (h : a * d = c * b) :
    divideToEven a b = divideToEven c d := by
  calc divideToEven a b = divideToEven (a * d) (b * d) := (divideToEven_mul_right a b hd).symm
    _ = divideToEven (c * b) (d * b) := by rw [h, Nat.mul_comm b d]
    _ = divideToEven c d := divideToEven_mul_right c d hb

theorem div_le_divideToEven (num den : Nat) : num / den ≤ divideToEven num den := by
  unfold divideToEven
  dsimp only
  split
  · exact Nat.le_refl _
  · split <;> omega

theorem divideToEven_one (num : Nat) : divideToEven num 1 = num := by
  unfold divideToEven
  rw [Nat.mod_one, Nat.div_one]
  rfl

theorem divideToEven_of_small {num den : Nat} (h : 2 * num < den) : divideToEven num den = 0 := by
  have hlt : num < den := by omega
  unfold divideToEven
  rw [Nat.div_eq_of_lt hlt, Nat.mod_eq_of_lt hlt]
  exact if_pos h

/-! ### Integer powers as quotients of natural ones -/

theorem zpow_mul_pow (b : Nat) (hb : 0 < b) (z : Int) :
    (b : ℚ) ^ z * (b : ℚ) ^ (-z).toNat = (b : ℚ) ^ z.toNat := by
  have hb : (b : ℚ) ≠ 0 := by positivity
  rw [← zpow_natCast, ← zpow_natCast, ← zpow_add₀ hb]
  congr 1
  omega

theorem zpow_eq_div (b : Nat) (hb : 0 < b) (z : Int) :
    (b : ℚ) ^ z = (b : ℚ) ^ z.toNat / (b : ℚ) ^ (-z).toNat := by
  have hb' : (b : ℚ) ^ (-z).toNat ≠ 0 := by positivity
  rw [eq_div_iff hb', zpow_mul_pow b hb]

theorem two_zpow_le_iff {q : ℚ} (hq : 0 < q) (z : Int) : (2 : ℚ) ^ z ≤ q ↔ z ≤ Int.log 2 q := by
  exact_mod_cast Int.zpow_le_iff_le_log (b := 2) (by decide) hq

theorem lt_two_zpow_iff {q : ℚ} (hq : 0 < q) (z : Int) : q < (2 : ℚ) ^ z ↔ Int.log 2 q < z := by
  exact_mod_cast Int.lt_zpow_iff_log_lt (b := 2) (by decide) hq

namespace Binary64

variable {negative : Bool} {a b c d : Nat}

theorem reaches_iff (hb : 0 < b) (z : Int) :
    b * Nat.pow 2 z.toNat ≤ a * Nat.pow 2 (-z).toNat ↔ (2 : ℚ) ^ z ≤ (a : ℚ) / b := by
  have hpower := zpow_eq_div 2 (by decide) z
  have hb : (0 : ℚ) < b := by exact_mod_cast hb
  push_cast at hpower
  rw [hpower, div_le_div_iff₀ (by positivity) hb]
  simp only [Nat.pow_eq]
  rw [← Nat.cast_le (α := ℚ)]
  push_cast
  rw [mul_comm (b : ℚ)]

theorem log_div_bounds (ha : 0 < a) (hb : 0 < b) :
    (Nat.log2 a : Int) - Nat.log2 b - 1 ≤ Int.log 2 ((a : ℚ) / b) ∧
      Int.log 2 ((a : ℚ) / b) ≤ (Nat.log2 a : Int) - Nat.log2 b := by
  have hq : (0 : ℚ) < (a : ℚ) / b := by positivity
  have hla : (2 : ℚ) ^ Nat.log2 a ≤ a := by exact_mod_cast Nat.log2_self_le ha.ne'
  have hua : (a : ℚ) < 2 ^ (Nat.log2 a + 1) := by exact_mod_cast Nat.lt_log2_self
  have hlb : (2 : ℚ) ^ Nat.log2 b ≤ b := by exact_mod_cast Nat.log2_self_le hb.ne'
  have hub : (b : ℚ) < 2 ^ (Nat.log2 b + 1) := by exact_mod_cast Nat.lt_log2_self
  generalize Nat.log2 a = la at hla hua ⊢
  generalize Nat.log2 b = lb at hlb hub ⊢
  constructor
  · rw [← two_zpow_le_iff hq, le_div_iff₀ (by positivity)]
    calc (2 : ℚ) ^ ((la : Int) - lb - 1) * b
        ≤ 2 ^ ((la : Int) - lb - 1) * 2 ^ (lb + 1) := by gcongr
      _ = 2 ^ la := by
          rw [← zpow_natCast, ← zpow_natCast, ← zpow_add₀ two_ne_zero]
          congr 1
          omega
      _ ≤ a := hla
  · rw [← Int.lt_add_one_iff, ← lt_two_zpow_iff hq, div_lt_iff₀ (by positivity)]
    calc (a : ℚ) < 2 ^ (la + 1) := hua
      _ = 2 ^ ((la : Int) - lb + 1) * 2 ^ lb := by
          rw [← zpow_natCast, ← zpow_natCast, ← zpow_add₀ two_ne_zero]
          congr 1
          omega
      _ ≤ 2 ^ ((la : Int) - lb + 1) * b := by gcongr

theorem unitPower_eq (ha : 0 < a) (hb : 0 < b) :
    unitPower a b = max (Int.log 2 ((a : ℚ) / b) - 52) (-1074) := by
  have hq : (0 : ℚ) < (a : ℚ) / b := by positivity
  have hbounds := log_div_bounds ha hb
  have hreached := reaches_iff (a := a) hb ((Nat.log2 a : Int) - Nat.log2 b)
  rw [two_zpow_le_iff hq] at hreached
  unfold unitPower
  dsimp only
  simp only [hreached, decide_eq_true_eq]
  split <;> omega

/-! ### Rounded quotients -/

theorem ofRatio_of_pos (ha : 0 < a) :
    ofRatio negative a b =
      ⟨negative, min ((unitPower a b + 1074).toNat * 2 ^ 52 +
        divideToEven (a * 2 ^ (-unitPower a b).toNat) (b * 2 ^ (unitPower a b).toNat))
          infiniteMagnitude⟩ :=
  if_neg ha.ne'

theorem ofRatio_congr (hb : 0 < b) (hd : 0 < d) (h : a * d = c * b) :
    ofRatio negative a b = ofRatio negative c d := by
  rcases Nat.eq_zero_or_pos a with rfl | ha
  · have hc : c = 0 := by
      rcases Nat.mul_eq_zero.mp ((Nat.zero_mul d).symm.trans h).symm with hc | hb'
      · exact hc
      · omega
    rw [hc, ofRatio_zero, ofRatio_zero]
  · have hc : 0 < c := Nat.pos_of_mul_pos_right (h ▸ Nat.mul_pos ha hd)
    have hvalue : (a : ℚ) / b = (c : ℚ) / d := by
      rw [div_eq_div_iff (by positivity) (by positivity)]
      exact_mod_cast h
    have hunit : unitPower a b = unitPower c d := by
      rw [unitPower_eq ha hb, unitPower_eq hc hd, hvalue]
    rw [ofRatio_of_pos ha, ofRatio_of_pos hc, hunit]
    generalize unitPower c d = unit
    have hrounded : divideToEven (a * 2 ^ (-unit).toNat) (b * 2 ^ unit.toNat) =
        divideToEven (c * 2 ^ (-unit).toNat) (d * 2 ^ unit.toNat) := by
      apply divideToEven_congr (by positivity) (by positivity)
      calc a * 2 ^ (-unit).toNat * (d * 2 ^ unit.toNat)
          = a * d * (2 ^ (-unit).toNat * 2 ^ unit.toNat) := by ring
        _ = c * b * (2 ^ (-unit).toNat * 2 ^ unit.toNat) := by rw [h]
        _ = c * 2 ^ (-unit).toNat * (b * 2 ^ unit.toNat) := by ring
    rw [hrounded]

theorem ofRatio_of_large (hb : 0 < b) (h : (2 : ℚ) ^ (1024 : Int) ≤ (a : ℚ) / b) :
    ofRatio negative a b = infinity negative := by
  have ha : 0 < a := by
    rcases Nat.eq_zero_or_pos a with rfl | ha
    · rw [Nat.cast_zero, zero_div] at h
      exact absurd h (not_le.mpr (by positivity))
    · exact ha
  have hq : (0 : ℚ) < (a : ℚ) / b := by positivity
  have hlog := (two_zpow_le_iff hq 1024).mp h
  have hunit : unitPower a b = Int.log 2 ((a : ℚ) / b) - 52 := by
    rw [unitPower_eq ha hb]
    omega
  have hreach := (reaches_iff (a := a) hb (Int.log 2 ((a : ℚ) / b))).mpr
    ((two_zpow_le_iff hq _).mpr le_rfl)
  rw [ofRatio_of_pos ha, hunit]
  generalize Int.log 2 ((a : ℚ) / b) = top at hlog hreach ⊢
  obtain ⟨n, rfl⟩ : ∃ n : Nat, top = n + 52 := ⟨(top - 52).toNat, by omega⟩
  have hrounded : 2 ^ 52 ≤ divideToEven (a * 2 ^ (-((n : Int) + 52 - 52)).toNat)
      (b * 2 ^ ((n : Int) + 52 - 52).toNat) := by
    refine le_trans ?_ (div_le_divideToEven _ _)
    rw [Nat.le_div_iff_mul_le (by positivity)]
    have hn : ((n : Int) + 52).toNat = n + 52 := by omega
    have hz : (-((n : Int) + 52)).toNat = 0 := by omega
    have hn' : ((n : Int) + 52 - 52).toNat = n := by omega
    have hz' : (-((n : Int) + 52 - 52)).toNat = 0 := by omega
    rw [hn, hz] at hreach
    rw [hn', hz']
    calc 2 ^ 52 * (b * 2 ^ n) = b * Nat.pow 2 (n + 52) := by
          rw [Nat.pow_eq, pow_add]
          ring
      _ ≤ a * 2 ^ 0 := hreach
  have hinfinite : infiniteMagnitude = 2047 * 2 ^ 52 := rfl
  have hlarge : infiniteMagnitude ≤ ((n : Int) + 52 - 52 + 1074).toNat * 2 ^ 52 +
      divideToEven (a * 2 ^ (-((n : Int) + 52 - 52)).toNat)
        (b * 2 ^ ((n : Int) + 52 - 52).toNat) := by
    omega
  rw [Nat.min_eq_right hlarge]
  rfl

theorem double_lt_of_lt_zpow {n : Nat} (ha : 0 < a) (hb : 0 < b)
    (h : (a : ℚ) / b < (2 : ℚ) ^ (-(n + 1) : Int)) : 2 * (a * 2 ^ n) < b := by
  have hq : (0 : ℚ) < (a : ℚ) / b := by positivity
  rw [zpow_neg, lt_inv_comm₀ hq (by positivity), inv_div, lt_div_iff₀ (by positivity)] at h
  have hnat : 2 ^ (n + 1) * a < b := by exact_mod_cast h
  calc 2 * (a * 2 ^ n) = 2 ^ (n + 1) * a := by ring
    _ < b := hnat

theorem ofRatio_of_tiny (ha : 0 < a) (hb : 0 < b) (h : (a : ℚ) / b < (2 : ℚ) ^ (-1075 : Int)) :
    ofRatio negative a b = ⟨negative, 0⟩ := by
  have hq : (0 : ℚ) < (a : ℚ) / b := by positivity
  have hlog := (lt_two_zpow_iff hq (-1075)).mp h
  obtain ⟨n, hn⟩ : ∃ n : Nat, (n : Int) = 1074 := ⟨1074, rfl⟩
  have hunit : unitPower a b = -(n : Int) := by
    rw [unitPower_eq ha hb]
    omega
  have hsmall : 2 * (a * 2 ^ n) < b := by
    apply double_lt_of_lt_zpow ha hb
    rw [hn]
    exact h
  have hpower : (-(-(n : Int))).toNat = n := by omega
  have hunitless : (-(n : Int)).toNat = 0 := by omega
  have hfield : (-(n : Int) + 1074).toNat = 0 := by omega
  rw [ofRatio_of_pos ha, hunit, hpower, hunitless, hfield, pow_zero, mul_one,
    divideToEven_of_small hsmall]
  rfl

/-! ### A finite number is its own rounding -/

theorem significand_lt (x : Binary64) : x.significand < 2 ^ 53 := by
  have hfraction : x.magnitude % 2 ^ 52 < 2 ^ 52 := Nat.mod_lt _ (by decide)
  unfold significand
  simp only [Nat.pow_eq]
  split <;> omega

theorem numerator_div_denominator (x : Binary64) :
    (x.numerator : ℚ) / x.denominator = x.significand * 2 ^ x.power := by
  have hpower := zpow_eq_div 2 (by decide) x.power
  push_cast at hpower
  rw [hpower, numerator, denominator]
  simp only [Nat.pow_eq]
  push_cast
  rw [mul_div_assoc]

theorem le_significand {x : Binary64} (hnormal : x.exponentField ≠ 0) :
    2 ^ 52 ≤ x.significand := by
  unfold significand
  rw [if_neg hnormal]
  exact Nat.le_add_right _ _

theorem le_power (x : Binary64) : -1074 ≤ x.power := by
  unfold power
  omega

theorem unitPower_self {x : Binary64} (hpos : 0 < x.significand) :
    unitPower x.numerator x.denominator = x.power := by
  have hnum : 0 < x.numerator := Nat.mul_pos hpos (Nat.two_pow_pos _)
  have hq : (0 : ℚ) < x.significand * 2 ^ x.power := by positivity
  have hmin := x.le_power
  have hupper : Int.log 2 ((x.significand : ℚ) * 2 ^ x.power) < x.power + 53 := by
    rw [← lt_two_zpow_iff hq, zpow_add₀ two_ne_zero, mul_comm]
    have hlt : (x.significand : ℚ) < 2 ^ (53 : Int) := by exact_mod_cast x.significand_lt
    gcongr
  rw [unitPower_eq hnum x.denominator_pos, numerator_div_denominator]
  by_cases hnormal : x.exponentField = 0
  · have hpower : x.power = -1074 := by
      rw [power, hnormal]
      rfl
    omega
  · have hlower : x.power + 52 ≤ Int.log 2 ((x.significand : ℚ) * 2 ^ x.power) := by
      rw [← two_zpow_le_iff hq, zpow_add₀ two_ne_zero, mul_comm]
      have hle : (2 : ℚ) ^ (52 : Int) ≤ x.significand := by exact_mod_cast le_significand hnormal
      gcongr
    omega

theorem magnitude_eq (x : Binary64) :
    (x.power + 1074).toNat * 2 ^ 52 + x.significand = x.magnitude := by
  have hsplit : x.magnitude / 2 ^ 52 * 2 ^ 52 + x.magnitude % 2 ^ 52 = x.magnitude :=
    Nat.div_add_mod' _ _
  have hfield : x.exponentField = x.magnitude / 2 ^ 52 := rfl
  unfold power significand
  simp only [Nat.pow_eq, hfield]
  generalize x.magnitude / 2 ^ 52 = field at hsplit ⊢
  generalize x.magnitude % 2 ^ 52 = fraction at hsplit ⊢
  have hunits : (((max field 1 : Nat) : Int) - 1075 + 1074).toNat = field - 1 := by omega
  rw [← hsplit, hunits]
  cases field with
  | zero => rw [if_pos rfl]
  | succ n =>
      rw [if_neg (Nat.succ_ne_zero n), Nat.add_sub_cancel, Nat.succ_mul, Nat.add_assoc]

theorem ofRatio_self {x : Binary64} (hfinite : x.isFinite) :
    ofRatio x.negative x.numerator x.denominator = x := by
  have hmagnitude := x.magnitude_eq
  have hlt : x.magnitude < infiniteMagnitude := by simpa [isFinite] using hfinite
  rcases Nat.eq_zero_or_pos x.significand with hzero | hpos
  · have hnum : x.numerator = 0 := by rw [numerator, hzero, Nat.zero_mul]
    have hmin := x.le_power
    have hfield : x.exponentField = 0 := by
      by_contra hnormal
      have hle := le_significand hnormal
      omega
    have hpower : x.power = -1074 := by
      rw [power, hfield]
      rfl
    have hall : x.magnitude = 0 := by
      rw [hzero, hpower] at hmagnitude
      omega
    rw [hnum, ofRatio_zero, ← hall]
  · have hnum : 0 < x.numerator := Nat.mul_pos hpos (Nat.two_pow_pos _)
    have hrounded : divideToEven (x.numerator * 2 ^ (-x.power).toNat)
        (x.denominator * 2 ^ x.power.toNat) = x.significand := by
      calc divideToEven (x.numerator * 2 ^ (-x.power).toNat) (x.denominator * 2 ^ x.power.toNat)
          = divideToEven x.significand 1 := by
            refine divideToEven_congr (Nat.mul_pos x.denominator_pos (by positivity))
              (by decide) ?_
            rw [numerator, denominator]
            simp only [Nat.pow_eq]
            ring
        _ = x.significand := divideToEven_one _
    rw [ofRatio_of_pos hnum, unitPower_self hpos, hrounded, hmagnitude,
      Nat.min_eq_left (Nat.le_of_lt hlt)]

/-! ### Decimal numbers -/

theorem ofDecimal_zero (negative : Bool) (exponent : Int) :
    ofDecimal negative 0 exponent = ⟨negative, 0⟩ := if_pos rfl

/-- Exponents far beyond the range are settled as if the power had been computed. -/
theorem ofDecimal_eq_ofRatio (negative : Bool) (coefficient : Nat) (exponent : Int) :
    ofDecimal negative coefficient exponent =
      ofRatio negative (coefficient * 10 ^ exponent.toNat) (10 ^ (-exponent).toNat) := by
  unfold ofDecimal
  split
  · rename_i hzero
    rw [hzero, Nat.zero_mul, ofRatio_zero]
  rename_i hpos
  have hpos : 0 < coefficient := Nat.pos_of_ne_zero hpos
  have hvalue : ((coefficient * 10 ^ exponent.toNat : Nat) : ℚ) /
      ((10 ^ (-exponent).toNat : Nat) : ℚ) = coefficient * 10 ^ exponent := by
    have hpower := zpow_eq_div 10 (by decide) exponent
    push_cast at hpower ⊢
    rw [hpower, mul_div_assoc]
  split
  · rename_i hlarge
    refine (ofRatio_of_large (by positivity) ?_).symm
    rw [hvalue]
    calc (2 : ℚ) ^ (1024 : Int) ≤ 2 ^ (3 * exponent) := by
          apply zpow_le_zpow_right₀ (by norm_num)
          omega
      _ = (2 ^ (3 : Int)) ^ exponent := zpow_mul ..
      _ ≤ 10 ^ exponent := zpow_le_zpow_left₀ (by omega) (by norm_num) (by norm_num)
      _ ≤ coefficient * 10 ^ exponent := by
          apply le_mul_of_one_le_left (by positivity)
          exact_mod_cast hpos
  split
  · rename_i hsmall
    refine (ofRatio_of_tiny (by positivity) (by positivity) ?_).symm
    have hbits : (coefficient : ℚ) < 2 ^ ((Nat.log2 coefficient : Int) + 1) := by
      exact_mod_cast Nat.lt_log2_self
    rw [hvalue]
    calc (coefficient : ℚ) * 10 ^ exponent
        < 2 ^ ((Nat.log2 coefficient : Int) + 1) * 10 ^ exponent := by gcongr
      _ ≤ 2 ^ ((Nat.log2 coefficient : Int) + 1) * (2 ^ (3 : Int)) ^ exponent := by
          gcongr ?_ * ?_
          obtain ⟨n, rfl⟩ : ∃ n : Nat, exponent = -n := ⟨exponent.natAbs, by omega⟩
          rw [zpow_neg, zpow_neg, zpow_natCast, zpow_natCast]
          gcongr
          norm_num
      _ = 2 ^ ((Nat.log2 coefficient : Int) + 1 + 3 * exponent) := by
          rw [← zpow_mul, ← zpow_add₀ two_ne_zero]
      _ ≤ 2 ^ (-1075 : Int) := by
          apply zpow_le_zpow_right₀ (by norm_num)
          omega
  · rfl

theorem ofDecimal_congr {negative : Bool} {c d : Nat} {e f : Int}
    (h : (c : ℚ) * 10 ^ e = d * 10 ^ f) : ofDecimal negative c e = ofDecimal negative d f := by
  rw [ofDecimal_eq_ofRatio, ofDecimal_eq_ofRatio]
  apply ofRatio_congr (by positivity) (by positivity)
  have he := zpow_eq_div 10 (by decide) e
  have hf := zpow_eq_div 10 (by decide) f
  push_cast at he hf
  rw [he, hf, ← mul_div_assoc, ← mul_div_assoc,
    div_eq_div_iff (by positivity) (by positivity)] at h
  exact_mod_cast h

end Binary64

namespace Decimal

theorem ofDecimal_mul_pow (negative : Bool) (c k : Nat) (e : Int) :
    Binary64.ofDecimal negative (c * 10 ^ k) e = Binary64.ofDecimal negative c (e + k) := by
  apply Binary64.ofDecimal_congr
  push_cast
  rw [zpow_add₀ (by norm_num), zpow_natCast]
  ring

theorem ofDecimal_exactDecimal {x : Binary64} (hfinite : x.isFinite) :
    Binary64.ofDecimal x.negative (exactDecimal x).coefficient (exactDecimal x).exponent = x := by
  have hdenominator : x.denominator = 2 ^ (-x.power).toNat := rfl
  unfold exactDecimal
  dsimp only
  generalize (-x.power).toNat = halvings at hdenominator ⊢
  rw [Binary64.ofDecimal_eq_ofRatio, Int.toNat_neg_natCast, neg_neg, Int.toNat_natCast]
  calc Binary64.ofRatio x.negative (x.numerator * Nat.pow 5 halvings * 10 ^ 0) (10 ^ halvings)
      = Binary64.ofRatio x.negative x.numerator x.denominator := by
        apply Binary64.ofRatio_congr (by positivity) x.denominator_pos
        have hten : 10 ^ halvings = 5 ^ halvings * 2 ^ halvings := (Nat.mul_pow 5 2 halvings)
        rw [hdenominator, hten, Nat.pow_eq]
        ring
    _ = x := Binary64.ofRatio_self hfinite

theorem ofDecimal_gridPoint {x : Binary64} {count : Nat} {p : Scaled}
    (h : gridPoint? x count = some p) :
    Binary64.ofDecimal x.negative p.coefficient p.exponent = x := by
  unfold gridPoint? at h
  extract_lets unit num den below rest reads upperFirst first second at h
  split at h
  · rename_i hreads
    cases h
    exact eq_of_beq hreads
  · split at h
    · rename_i hreads
      cases h
      exact eq_of_beq hreads
    · cases h

/-- The shortest decimal of a finite number reads back as that number. -/
theorem ofDecimal_shortest {x : Binary64} (hfinite : x.isFinite) :
    Binary64.ofDecimal x.negative (shortest x).coefficient (shortest x).exponent = x := by
  unfold shortest
  split
  · rename_i hzero
    obtain ⟨negative, magnitude⟩ := x
    cases hzero
    rfl
  · cases hsearch : (List.range 17).findSome? fun i => gridPoint? x (i + 1) with
    | none => exact ofDecimal_exactDecimal hfinite
    | some p =>
        obtain ⟨i, -, hpoint⟩ := List.exists_of_findSome?_eq_some hsearch
        exact ofDecimal_gridPoint hpoint

end Decimal

end DeliveryLedger
