import Mathlib.Algebra.Order.Floor.Ring
import Mathlib.Data.Int.Log
import Mathlib.Data.Rat.Floor
import Mathlib.Tactic.NormNum
import ShadeIndexer.Lib.F64

/-!
The binary64 value nearest to a rational, with ties to the even significand.
The two zeros are one value here. An integer of at most 53 bits is its own
nearest value.
-/

namespace ShadeIndexer.Lib.Binary64

/-- The nearest integer, and of two that are equally near the even one. -/
def roundEven (q : ℚ) : Int :=
  if q - ⌊q⌋ < 1 / 2 then ⌊q⌋
  else if 1 / 2 < q - ⌊q⌋ then ⌊q⌋ + 1
  else if ⌊q⌋ % 2 = 0 then ⌊q⌋
  else ⌊q⌋ + 1

/-- The exponent of the last bit of the significand. Below the normal numbers
it stays where it is. -/
def lastBit (q : ℚ) : Int := max (-1074) (Int.log 2 |q| - 52)

def nearest (q : ℚ) : F64 :=
  let x : ℚ := roundEven (q / 2 ^ lastBit q) * 2 ^ lastBit q
  if 2 ^ 1024 ≤ |x| then .inf (q < 0) else .finite x

theorem roundEven_intCast (n : Int) : roundEven n = n := by
  simp [roundEven]

theorem lastBit_nonpos {n : Int} (h : n.natAbs < 2 ^ 53) : lastBit n ≤ 0 := by
  have hlog : Int.log 2 |(n : ℚ)| < 53 := by
    rcases eq_or_ne n 0 with rfl | hne
    · simp
    · have hpos : (0 : ℚ) < |(n : ℚ)| := by simpa using hne
      rw [← Int.lt_zpow_iff_log_lt (by decide) hpos]
      have hnat : ((n.natAbs : ℕ) : ℚ) < 2 ^ 53 := by exact_mod_cast h
      simpa using hnat
  unfold lastBit
  omega

theorem nearest_intCast {n : Int} (h : n.natAbs < 2 ^ 53) : nearest n = .finite n := by
  obtain ⟨k, hk⟩ := Int.eq_ofNat_of_zero_le (Int.neg_nonneg_of_nonpos (lastBit_nonpos h))
  have hexponent : lastBit n = -(k : Int) := by omega
  have hscaled : (n : ℚ) / 2 ^ lastBit n = ((n * 2 ^ k : Int) : ℚ) := by
    rw [hexponent, zpow_neg, zpow_natCast, div_inv_eq_mul]
    push_cast
    rfl
  have hvalue : (roundEven ((n : ℚ) / 2 ^ lastBit n) : ℚ) * 2 ^ lastBit n = n := by
    rw [hscaled, roundEven_intCast, ← hscaled, div_mul_cancel₀]
    exact zpow_ne_zero _ (by norm_num)
  have hsmall : ¬ (2 ^ 1024 : ℚ) ≤ |(n : ℚ)| := by
    have hnat : ((n.natAbs : ℕ) : ℚ) < 2 ^ 53 := by exact_mod_cast h
    have habs : |(n : ℚ)| < 2 ^ 53 := by simpa using hnat
    have hpow : (2 ^ 53 : ℚ) ≤ 2 ^ 1024 := pow_le_pow_right₀ (by norm_num) (by norm_num)
    exact not_le.mpr (lt_of_lt_of_le habs hpow)
  simp only [nearest, hvalue, if_neg hsmall]

end ShadeIndexer.Lib.Binary64
