import Mathlib.Algebra.Order.Field.Power
import Mathlib.Data.Int.Log
import Mathlib.Data.Rat.Floor
import Mathlib.Tactic.FieldSimp
import Mathlib.Tactic.Linarith
import Mathlib.Tactic.NormNum
import Mathlib.Tactic.Positivity
import Mathlib.Tactic.Ring
import Pushdown.Number.Shortest

/-!
# Rounding gives back the number of an interval

Around every positive binary number lies an interval of ratios (`Rounds.of`). All ratios in it are
rounded to the number (`ofRatio_of_contains`), and all decimals in it are read as the number
(`ofDecimal_of_contains`).

## Implementation notes

The functions compute with pairs of integers, scaled so that no power has a negative exponent. Here
such a pair is always turned into the ratio it stands for, and an interval is stated in units of the
last place of its number.

Below a power of two the unit is half as large. A ratio there that belongs to the power of two is
rounded in the smaller unit, to a significand that overflows into the hidden bit.
-/

namespace Pushdown.Number

variable {num den : Nat}

/-! ## Ratios and powers -/

theorem zpow_eq_div {base : Nat} (hbase : 0 < base) (e : Int) :
    (base : ℚ) ^ e = (base ^ e.toNat : Nat) / (base ^ (-e).toNat : Nat) := by
  have hne : (base : ℚ) ≠ 0 := by exact_mod_cast hbase.ne'
  push_cast
  rw [← zpow_natCast, ← zpow_natCast, ← zpow_sub₀ hne]
  congr 1
  omega

theorem powerFits_iff {base : Nat} (hbase : 0 < base) (num : Nat) (hden : 0 < den) (e : Int) :
    powerFits base e num den = true ↔ (base : ℚ) ^ e ≤ num / den := by
  have hdown : (0 : ℚ) < (base ^ (-e).toNat : Nat) := by exact_mod_cast Nat.pow_pos hbase
  rw [zpow_eq_div hbase, div_le_div_iff₀ hdown (by exact_mod_cast hden), powerFits,
    decide_eq_true_eq]
  norm_cast

/-- The logarithm of a ratio is found from the lengths of its parts, up to one. -/
theorem floorLog2_eq (hnum : 0 < num) (hden : 0 < den) :
    floorLog2 num den = Int.log 2 ((num : ℚ) / den) := by
  have hpos : (0 : ℚ) < (num : ℚ) / den := by positivity
  have hnum_le : (2 : ℚ) ^ num.log2 ≤ num := by exact_mod_cast Nat.log2_self_le hnum.ne'
  have hnum_lt : (num : ℚ) < 2 ^ (num.log2 + 1) := by exact_mod_cast Nat.lt_log2_self
  have hden_le : (2 : ℚ) ^ den.log2 ≤ den := by exact_mod_cast Nat.log2_self_le hden.ne'
  have hden_lt : (den : ℚ) < 2 ^ (den.log2 + 1) := by exact_mod_cast Nat.lt_log2_self
  have hlow : (num.log2 : Int) - den.log2 - 1 ≤ Int.log 2 ((num : ℚ) / den) := by
    rw [← Int.zpow_le_iff_le_log one_lt_two hpos]
    calc ((2 : Nat) : ℚ) ^ ((num.log2 : Int) - den.log2 - 1)
        = 2 ^ num.log2 / 2 ^ (den.log2 + 1) := by
          rw [sub_sub, Nat.cast_ofNat, zpow_sub₀ two_ne_zero]
          norm_cast
      _ ≤ num / den := by gcongr
  have hhigh : Int.log 2 ((num : ℚ) / den) < (num.log2 : Int) - den.log2 + 1 := by
    rw [← Int.lt_zpow_iff_log_lt one_lt_two hpos]
    calc (num : ℚ) / den < 2 ^ (num.log2 + 1) / 2 ^ den.log2 := by gcongr
      _ = ((2 : Nat) : ℚ) ^ ((num.log2 : Int) - den.log2 + 1) := by
          rw [sub_add_eq_add_sub, Nat.cast_ofNat, zpow_sub₀ two_ne_zero]
          norm_cast
  have hfits := powerFits_iff two_pos num hden ((num.log2 : Int) - den.log2)
  rw [Int.zpow_le_iff_le_log one_lt_two hpos] at hfits
  simp only [floorLog2, hfits]
  split <;> omega

/-! ## The nearest integer -/

/-- The integer that a ratio is rounded to: it is no more than a half away, and less if it is
odd. -/
structure Nearest (n : Nat) (v : ℚ) : Prop where
  /-- The ratio is at most a half below. -/
  low : n - 1 / 2 ≤ v
  /-- The ratio is at most a half above. -/
  high : v ≤ n + 1 / 2
  /-- An exact half goes to the even integer. -/
  odd : n % 2 = 1 → n - 1 / 2 < v ∧ v < n + 1 / 2

/-- The rounded quotient, by inequalities between integers. -/
theorem roundDiv_eq {n : Nat} (hden : 0 < den) (hlow : 2 * (n * den) ≤ 2 * num + den)
    (hhigh : 2 * num ≤ 2 * (n * den) + den)
    (hodd : n % 2 = 1 → 2 * (n * den) < 2 * num + den ∧ 2 * num < 2 * (n * den) + den) :
    roundDiv num den = n := by
  have hdiv := Nat.div_add_mod num den
  have hmod := Nat.mod_lt num hden
  rw [roundDiv]
  generalize num / den = q at hdiv ⊢
  generalize num % den = r at hdiv hmod ⊢
  have hle : q ≤ n := by
    by_contra! hlt
    have hstep : (n + 1) * den ≤ q * den := Nat.mul_le_mul_right den hlt
    grind
  have hge : n ≤ q + 1 := by
    by_contra! hlt
    have hstep : (q + 2) * den ≤ n * den := Nat.mul_le_mul_right den hlt
    grind
  obtain rfl | rfl : n = q ∨ n = q + 1 := by omega
  · grind
  · grind

theorem roundDiv_of_nearest {n : Nat} (hden : 0 < den) (h : Nearest n (num / den)) :
    roundDiv num den = n := by
  have hpos : (0 : ℚ) < den := by exact_mod_cast hden
  obtain ⟨hlow, hhigh, hodd⟩ := h
  rw [le_div_iff₀ hpos] at hlow
  rw [div_le_iff₀ hpos] at hhigh
  rw [lt_div_iff₀ hpos, div_lt_iff₀ hpos] at hodd
  refine roundDiv_eq hden ?_ ?_ fun h => ⟨?_, ?_⟩
  · have h : ((2 * (n * den) : Nat) : ℚ) ≤ (2 * num + den : Nat) := by
      push_cast
      linarith
    exact_mod_cast h
  · have h : ((2 * num : Nat) : ℚ) ≤ (2 * (n * den) + den : Nat) := by
      push_cast
      linarith
    exact_mod_cast h
  · have h : ((2 * (n * den) : Nat) : ℚ) < (2 * num + den : Nat) := by
      push_cast
      linarith [(hodd h).1]
    exact_mod_cast h
  · have h : ((2 * num : Nat) : ℚ) < (2 * (n * den) + den : Nat) := by
      push_cast
      linarith [(hodd h).2]
    exact_mod_cast h

/-! ## Decoded numbers -/

variable {f : Format}

namespace Format

theorem hiddenBit_pos : 0 < f.hiddenBit := Nat.pow_pos two_pos

theorem hiddenBit_mul_zpow (k : Int) :
    f.hiddenBit * (2 : ℚ) ^ k = ((2 : Nat) : ℚ) ^ (f.fractionBits + k) := by
  rw [hiddenBit, Nat.pow_eq, Nat.cast_pow, Nat.cast_ofNat, zpow_add₀ two_ne_zero, zpow_natCast]

theorem minExponent_eq (f : Format) :
    f.minExponent = 2 - (2 ^ (f.exponentBits - 1) : Nat) - f.fractionBits := by
  push_cast [minExponent, Nat.pow_eq]
  rfl

end Format

namespace Binary

/-- The significand and the exponent that a finite number is decoded to. -/
structure Fields (x : Binary f) (negative : Bool) (significand : Nat) (exponent : Int) :
    Prop where
  /-- No exponent is smaller than the least one. -/
  least : f.minExponent ≤ exponent
  /-- The significand has one bit more than are stored. -/
  bounded : significand < 2 * f.hiddenBit
  /-- Above the least exponent the hidden bit is set. -/
  normal : f.minExponent < exponent → f.hiddenBit ≤ significand
  /-- The magnitude is below infinity. -/
  finite : (exponent - f.minExponent).toNat * f.hiddenBit + significand < f.infinity
  /-- The number is the one with this sign and magnitude. -/
  eq_ofMagnitude :
    ofMagnitude negative ((exponent - f.minExponent).toNat * f.hiddenBit + significand) = x

theorem ofMagnitude_mod {x : Binary f} (h : x.word.toNat % f.signBit < f.infinity) :
    ofMagnitude x.negative (x.word.toNat % f.signBit) = x := by
  have hlt : x.word.toNat < 2 * f.signBit := by
    have h := x.word.isLt
    rw [Nat.pow_succ] at h
    rw [Format.signBit, Nat.mul_comm]
    exact h
  have hsum : (if x.negative = true then f.signBit else 0) + x.word.toNat % f.signBit =
      x.word.toNat := by
    rw [Binary.negative]
    by_cases hsign : f.signBit ≤ x.word.toNat
    · rw [if_pos (by simpa using hsign), Nat.mod_eq_sub_mod hsign, Nat.mod_eq_of_lt (by omega)]
      omega
    · rw [if_neg (by simpa using hsign), Nat.mod_eq_of_lt (by omega), Nat.zero_add]
  obtain ⟨word⟩ := x
  simp only [ofMagnitude, Nat.min_eq_left h.le, hsum, BitVec.ofNat_toNat, BitVec.setWidth_eq]

theorem fields_of_decode {x : Binary f} {negative : Bool} {significand : Nat} {exponent : Int}
    (h : x.decode = .finite negative significand exponent) :
    x.Fields negative significand exponent := by
  have hpos : 0 < f.hiddenBit := Format.hiddenBit_pos
  have hmod := Nat.mod_lt (x.word.toNat % f.signBit) hpos
  have hdiv := Nat.div_add_mod (x.word.toNat % f.signBit) f.hiddenBit
  have hword := x.ofMagnitude_mod
  rw [decode] at h
  split_ifs at h with hnan hinf hzero
  all_goals
    obtain ⟨rfl, rfl, rfl⟩ := Decoded.finite.inj h
    specialize hword (by omega)
  · rw [hzero, Nat.mul_zero, Nat.zero_add] at hdiv
    have hmag : (f.minExponent - f.minExponent).toNat * f.hiddenBit +
        x.word.toNat % f.signBit % f.hiddenBit = x.word.toNat % f.signBit := by
      simp [hdiv]
    exact ⟨le_rfl, by omega, fun h => absurd h (lt_irrefl _), by omega, by rw [hmag, hword]⟩
  · have hmag : (f.minExponent + ((x.word.toNat % f.signBit / f.hiddenBit - 1 : Nat) : Int) -
        f.minExponent).toNat * f.hiddenBit +
          (f.hiddenBit + x.word.toNat % f.signBit % f.hiddenBit) = x.word.toNat % f.signBit := by
      rw [add_sub_cancel_left, Int.toNat_natCast, ← add_assoc, ← Nat.succ_mul,
        Nat.succ_eq_add_one, Nat.sub_add_cancel (Nat.pos_of_ne_zero hzero), Nat.mul_comm, hdiv]
    exact ⟨by simp, by omega, fun _ => by omega, by rw [hmag]; omega, by rw [hmag, hword]⟩

/-- The exponents of a format end where its infinity starts. -/
theorem Fields.exponent_le {x : Binary f} {negative : Bool} {significand : Nat} {exponent : Int}
    (hf : 2 ≤ f.exponentBits) (hx : x.Fields negative significand exponent) :
    f.fractionBits + (exponent + 1) ≤ Nat.pow 2 (f.exponentBits - 1) := by
  have hpow : 2 ^ f.exponentBits = 2 * 2 ^ (f.exponentBits - 1) := by
    rw [← pow_succ']
    congr 1
    omega
  have htwo : 2 ≤ 2 ^ (f.exponentBits - 1) := Nat.le_self_pow (by omega) 2
  have hmin := f.minExponent_eq
  rw [Nat.pow_eq]
  rcases hx.least.eq_or_lt with heq | hlt
  · omega
  · have hnormal := hx.normal hlt
    have hfinite := hx.finite
    have hmul : ((exponent - f.minExponent).toNat + 1) * f.hiddenBit <
        (2 ^ f.exponentBits - 1) * f.hiddenBit := by
      rw [Nat.succ_mul]
      calc (exponent - f.minExponent).toNat * f.hiddenBit + f.hiddenBit
          ≤ (exponent - f.minExponent).toNat * f.hiddenBit + significand := by omega
        _ < (2 ^ f.exponentBits - 1) * f.hiddenBit := hfinite
    have hlt := Nat.lt_of_mul_lt_mul_right hmul
    omega

end Binary

/-! ## The interval of a number -/

/-- The value of a decimal. -/
def Decimal.value (d : Decimal) : ℚ := d.digits * 10 ^ d.exponent

namespace Rounds

/-- The ratio lies in the interval; the ends belong to it only if it is closed. -/
structure Contains (r : Rounds) (v : ℚ) : Prop where
  /-- The ratio is not below the lower end. -/
  low : r.low * (2 : ℚ) ^ r.exponent ≤ v
  /-- The ratio is not above the upper end. -/
  high : v ≤ r.high * (2 : ℚ) ^ r.exponent
  /-- In an open interval the ratio is not an end. -/
  inside : r.closed = false → r.low * (2 : ℚ) ^ r.exponent < v ∧ v < r.high * (2 : ℚ) ^ r.exponent

variable {significand : Nat} {exponent : Int} {v : ℚ}

/-- A ratio in the interval of a number, in units of its last place, is rounded to its
significand. -/
theorem Contains.nearest (h : (Rounds.of f significand exponent).Contains v) :
    Nearest significand (v / 2 ^ exponent) := by
  have hpos : (0 : ℚ) < 2 ^ exponent := by positivity
  have hlow : (4 * significand - 2 : ℚ) ≤ (Rounds.of f significand exponent).low := by
    have hle : 4 * significand ≤ (Rounds.of f significand exponent).low + 2 := by
      simp only [Rounds.of]
      split <;> omega
    have hcast : (4 * significand : ℚ) ≤ (Rounds.of f significand exponent).low + 2 := by
      exact_mod_cast hle
    linarith
  have hhigh : ((Rounds.of f significand exponent).high : ℚ) = 4 * significand + 2 := by
    push_cast [Rounds.of]
    rfl
  have hunit : (2 : ℚ) ^ (Rounds.of f significand exponent).exponent = 2 ^ exponent / 4 := by
    rw [Rounds.of, zpow_sub₀ two_ne_zero]
    norm_num
  have hends : (significand - 1 / 2 : ℚ) * 2 ^ exponent ≤
      (Rounds.of f significand exponent).low * (2 ^ exponent / 4) := by
    nlinarith
  obtain ⟨hl, hh, hinside⟩ := h
  rw [hunit] at hl hh hinside
  rw [hhigh] at hh hinside
  refine ⟨?_, ?_, fun hodd => ⟨?_, ?_⟩⟩
  · rw [le_div_iff₀ hpos]
    linarith
  · rw [div_le_iff₀ hpos]
    linarith
  · rw [lt_div_iff₀ hpos]
    linarith [(hinside (by simp [Rounds.of, hodd])).1]
  · rw [div_lt_iff₀ hpos]
    linarith [(hinside (by simp [Rounds.of, hodd])).2]

/-- Below a power of two the interval is only half as wide. -/
theorem Contains.low_of_hiddenBit (h : (Rounds.of f f.hiddenBit exponent).Contains v)
    (hmin : f.minExponent < exponent) : f.hiddenBit - 1 / 4 ≤ v / 2 ^ exponent := by
  have hpos : (0 : ℚ) < 2 ^ exponent := by positivity
  have hone : 1 ≤ 4 * f.hiddenBit := by
    have hhidden := Format.hiddenBit_pos (f := f)
    omega
  have hlow := h.low
  simp only [Rounds.of, hmin, and_self, if_true, zpow_sub₀ (two_ne_zero (α := ℚ))] at hlow
  push_cast [hone] at hlow
  rw [le_div_iff₀ hpos]
  linarith

/-- All ratios in the interval of a positive number are positive. -/
theorem Contains.pos (h : (Rounds.of f significand exponent).Contains v) (hs : 0 < significand) :
    0 < v := by
  have hunit : (0 : ℚ) < 2 ^ exponent := by positivity
  have hone : (1 : ℚ) ≤ significand := by exact_mod_cast hs
  have hscaled : 0 < v / 2 ^ exponent := by linarith [h.nearest.low]
  exact (div_pos_iff_of_pos_right hunit).mp hscaled

theorem Contains.digits_ne_zero {d : Decimal}
    (h : (Rounds.of f significand exponent).Contains d.value) (hs : 0 < significand) :
    d.digits ≠ 0 := by
  intro hzero
  have hpos := h.pos hs
  simp [Decimal.value, hzero] at hpos

end Rounds

/-! ## Ratios are rounded to the number -/

namespace Binary

variable {x : Binary f} {negative : Bool} {significand : Nat} {exponent : Int} {v : ℚ}

/-- The exponent that a ratio in the interval of a number is rounded with. It is that of the
number, or one less for a ratio below a power of two. -/
theorem exponent_of_contains (hx : x.Fields negative significand exponent) (hs : 0 < significand)
    (hv : (Rounds.of f significand exponent).Contains v) :
    max (Int.log 2 v - f.fractionBits) f.minExponent = exponent ∨
      max (Int.log 2 v - f.fractionBits) f.minExponent = exponent - 1 ∧
        significand = f.hiddenBit ∧ f.minExponent < exponent ∧ v / 2 ^ exponent < f.hiddenBit := by
  have hnear := hv.nearest
  have hpos := hv.pos hs
  have hunit : (0 : ℚ) < (2 : ℚ) ^ exponent := by positivity
  have hleast := hx.least
  have hlt : Int.log 2 v < f.fractionBits + (exponent + 1) := by
    have hbounded : (significand + 1 : ℚ) ≤ 2 * f.hiddenBit := by exact_mod_cast hx.bounded
    rw [← Int.lt_zpow_iff_log_lt one_lt_two hpos, ← Format.hiddenBit_mul_zpow,
      zpow_add_one₀ two_ne_zero, ← mul_assoc, mul_right_comm, ← div_lt_iff₀ hunit]
    linarith [hnear.high]
  by_cases hle : f.hiddenBit ≤ v / 2 ^ exponent
  · have hge : f.fractionBits + exponent ≤ Int.log 2 v := by
      rwa [← Int.zpow_le_iff_le_log one_lt_two hpos, ← Format.hiddenBit_mul_zpow,
        ← le_div_iff₀ hunit]
    left
    omega
  rw [not_le] at hle
  have hbelow : Int.log 2 v < f.fractionBits + exponent := by
    rwa [← Int.lt_zpow_iff_log_lt one_lt_two hpos, ← Format.hiddenBit_mul_zpow,
      ← div_lt_iff₀ hunit]
  by_cases hmin : f.minExponent < exponent
  · obtain rfl : significand = f.hiddenBit := by
      have hlt : (significand : ℚ) < f.hiddenBit + 1 := by linarith [hnear.low]
      have hlt : significand < f.hiddenBit + 1 := by exact_mod_cast hlt
      have hnormal := hx.normal hmin
      omega
    have hge : f.fractionBits + (exponent - 1) ≤ Int.log 2 v := by
      have hone : (1 : ℚ) ≤ f.hiddenBit := by exact_mod_cast hs
      have hlow := hv.low_of_hiddenBit hmin
      rw [le_div_iff₀ hunit] at hlow
      rw [← Int.zpow_le_iff_le_log one_lt_two hpos, ← Format.hiddenBit_mul_zpow,
        zpow_sub_one₀ two_ne_zero]
      nlinarith
    right
    exact ⟨by omega, rfl, hmin, hle⟩
  · left
    omega

/-- A ratio in the interval of a finite number is rounded to the number. -/
theorem ofRatio_of_contains (hx : x.Fields negative significand exponent) (hs : 0 < significand)
    (hden : 0 < den) (hv : (Rounds.of f significand exponent).Contains ((num : ℚ) / den)) :
    ofRatio negative num den = x := by
  have hnum : num ≠ 0 := by
    rintro rfl
    simpa using hv.pos hs
  have hratio : ∀ e : Int, ((num * 2 ^ (-e).toNat : Nat) : ℚ) / (den * 2 ^ e.toNat : Nat) =
      (num : ℚ) / den / 2 ^ e := by
    intro e
    have htwo := zpow_eq_div two_pos e
    rw [Nat.cast_ofNat] at htwo
    have hdown : (0 : ℚ) < (2 ^ (-e).toNat : Nat) := by positivity
    rw [htwo]
    push_cast
    field_simp
  have hround : ∀ (e : Int) (n : Nat), Nearest n ((num : ℚ) / den / 2 ^ e) →
      roundDiv (num * Nat.pow 2 (-e).toNat) (den * Nat.pow 2 e.toNat) = n := by
    intro e n hnear
    refine roundDiv_of_nearest (Nat.mul_pos hden (Nat.pow_pos two_pos)) ?_
    rwa [Nat.pow_eq, Nat.pow_eq, hratio]
  rw [ofRatio, if_neg hnum, floorLog2_eq (Nat.pos_of_ne_zero hnum) hden]
  dsimp only
  obtain he | ⟨he, rfl, hmin, hbelow⟩ := exponent_of_contains hx hs hv
  · rw [he, hround _ _ hv.nearest]
    exact hx.eq_ofMagnitude
  · -- in the smaller unit the significand is twice the hidden bit, which is even
    have hnear : Nearest (2 * f.hiddenBit) ((num : ℚ) / den / 2 ^ (exponent - 1)) := by
      have hlow := hv.low_of_hiddenBit hmin
      have hdouble : (num : ℚ) / den / 2 ^ (exponent - 1) =
          2 * ((num : ℚ) / den / 2 ^ exponent) := by
        rw [zpow_sub_one₀ two_ne_zero]
        field_simp
      rw [hdouble]
      refine ⟨?_, ?_, fun h => by omega⟩
      · push_cast
        linarith
      · push_cast
        linarith
    have hmagnitude : (exponent - 1 - f.minExponent).toNat * f.hiddenBit + 2 * f.hiddenBit =
        (exponent - f.minExponent).toNat * f.hiddenBit + f.hiddenBit := by
      rw [show (exponent - f.minExponent).toNat = (exponent - 1 - f.minExponent).toNat + 1 by omega]
      ring
    rw [he, hround _ _ hnear, hmagnitude]
    exact hx.eq_ofMagnitude

end Binary

/-! ## Decimals are read as the number -/

/-- A decimal is below the power of ten of the place in front of its digits. -/
theorem lt_zpow_leading (digits : Nat) (e : Int) :
    digits * (10 : ℚ) ^ e < 10 ^ (e + (Nat.toDigits 10 digits).length) := by
  have hlt : digits < 10 ^ (Nat.toDigits 10 digits).length :=
    (Nat.length_toDigits_le_iff (by decide) Nat.length_toDigits_pos).mp le_rfl
  have hcast : (digits : ℚ) < 10 ^ (Nat.toDigits 10 digits).length := by exact_mod_cast hlt
  rw [zpow_add₀ (by norm_num), zpow_natCast, mul_comm]
  gcongr

/-- A positive decimal is not below the power of ten of its first digit. -/
theorem zpow_leading_le {digits : Nat} (hdigits : digits ≠ 0) (e : Int) :
    (10 : ℚ) ^ (e + (Nat.toDigits 10 digits).length - 1) ≤ digits * 10 ^ e := by
  obtain ⟨n, hn⟩ := Nat.exists_eq_add_of_lt (Nat.length_toDigits_pos (b := 10) (n := digits))
  have hle : 10 ^ n ≤ digits := by
    by_contra! hlt
    rcases Nat.eq_zero_or_pos n with rfl | hpos
    · omega
    · have hlength := (Nat.length_toDigits_le_iff (by decide) hpos).mpr hlt
      omega
  have hcast : (10 : ℚ) ^ n ≤ digits := by exact_mod_cast hle
  rw [show e + ((Nat.toDigits 10 digits).length : Int) - 1 = n + e by omega,
    zpow_add₀ (by norm_num), zpow_natCast]
  gcongr

namespace Binary

variable {x : Binary f} {negative : Bool} {significand : Nat} {exponent : Int} {v : ℚ}

theorem lt_zpow_of_contains (hf : 2 ≤ f.exponentBits)
    (hx : x.Fields negative significand exponent)
    (hv : (Rounds.of f significand exponent).Contains v) :
    v < 2 ^ (Nat.pow 2 (f.exponentBits - 1) : Int) := by
  have hunit : (0 : ℚ) < 2 ^ exponent := by positivity
  have hbounded : (significand + 1 : ℚ) ≤ 2 * f.hiddenBit := by exact_mod_cast hx.bounded
  calc v ≤ (significand + 1 / 2) * 2 ^ exponent := by
        rw [← div_le_iff₀ hunit]
        exact hv.nearest.high
    _ < f.hiddenBit * 2 ^ (exponent + 1) := by
        rw [zpow_add_one₀ two_ne_zero]
        nlinarith
    _ = 2 ^ (f.fractionBits + (exponent + 1)) := by
        rw [Format.hiddenBit_mul_zpow, Nat.cast_ofNat]
    _ ≤ 2 ^ (Nat.pow 2 (f.exponentBits - 1) : Int) :=
        zpow_le_zpow_right₀ one_le_two (hx.exponent_le hf)

theorem zpow_le_of_contains (hx : x.Fields negative significand exponent) (hs : 0 < significand)
    (hv : (Rounds.of f significand exponent).Contains v) : 2 ^ (f.minExponent - 1) ≤ v := by
  have hunit : (0 : ℚ) < 2 ^ exponent := by positivity
  have hone : (1 : ℚ) ≤ significand := by exact_mod_cast hs
  have hleast := hx.least
  calc (2 : ℚ) ^ (f.minExponent - 1) ≤ 2 ^ (exponent - 1) :=
        zpow_le_zpow_right₀ one_le_two (by omega)
    _ ≤ (significand - 1 / 2) * 2 ^ exponent := by
        rw [zpow_sub_one₀ two_ne_zero]
        nlinarith
    _ ≤ v := by
        rw [← le_div_iff₀ hunit]
        exact hv.nearest.low

/-- A decimal in the interval of a finite number is read as the number. -/
theorem ofDecimal_of_contains (hf : 2 ≤ f.exponentBits)
    (hx : x.Fields negative significand exponent) (hs : 0 < significand) {d : Decimal}
    (hv : (Rounds.of f significand exponent).Contains d.value) :
    ofDecimal negative d.digits d.exponent = x := by
  have hdigits := hv.digits_ne_zero hs
  have hlow : 10 ^ (d.exponent + (Nat.toDigits 10 d.digits).length - 1) ≤ d.value :=
    zpow_leading_le hdigits d.exponent
  have hhigh : d.value < 10 ^ (d.exponent + (Nat.toDigits 10 d.digits).length) :=
    lt_zpow_leading d.digits d.exponent
  rw [ofDecimal, if_neg hdigits]
  generalize d.exponent + ((Nat.toDigits 10 d.digits).length : Int) = leading at hlow hhigh ⊢
  -- both shortcuts are for values outside of every interval
  have hsmall : leading ≤ (Nat.pow 2 (f.exponentBits - 1) : Int) := by
    by_contra! hlt
    have hreach : (2 : ℚ) ^ (Nat.pow 2 (f.exponentBits - 1) : Int) ≤ 10 ^ (leading - 1) :=
      calc (2 : ℚ) ^ (Nat.pow 2 (f.exponentBits - 1) : Int) ≤ 2 ^ (leading - 1) :=
            zpow_le_zpow_right₀ one_le_two (by omega)
        _ ≤ 10 ^ (leading - 1) := zpow_le_zpow_left₀ (by omega) (by norm_num) (by norm_num)
    exact absurd (lt_zpow_of_contains hf hx hv) (not_lt.mpr (hreach.trans hlow))
  have hlarge : f.minExponent ≤ leading := by
    by_contra! hlt
    have hmin : f.minExponent ≤ 1 := by
      have hone : 1 ≤ 2 ^ (f.exponentBits - 1) := Nat.one_le_two_pow
      rw [f.minExponent_eq]
      omega
    have hreach : (10 : ℚ) ^ leading ≤ 2 ^ (f.minExponent - 1) :=
      calc (10 : ℚ) ^ leading ≤ 10 ^ (f.minExponent - 1) :=
            zpow_le_zpow_right₀ (by norm_num) (by omega)
        _ ≤ 2 ^ (f.minExponent - 1) := by
            rw [← neg_sub, zpow_neg, zpow_neg]
            refine inv_anti₀ (by positivity) ?_
            exact zpow_le_zpow_left₀ (by omega) (by norm_num) (by norm_num)
    exact absurd (zpow_le_of_contains hx hs hv) (not_le.mpr (hhigh.trans_le hreach))
  rw [if_neg (not_lt.mpr hsmall), if_neg (not_lt.mpr hlarge)]
  refine ofRatio_of_contains hx hs (Nat.pow_pos (by decide)) ?_
  rw [Nat.pow_eq, Nat.pow_eq, Nat.cast_mul, mul_div_assoc, ← zpow_eq_div (by decide)]
  exact hv

end Binary

end Pushdown.Number
