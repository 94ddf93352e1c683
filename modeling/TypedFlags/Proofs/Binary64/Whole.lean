import Mathlib.Algebra.Order.Field.Rat
import Mathlib.Tactic.FieldSimp
import Mathlib.Tactic.Ring
import TypedFlags.Binary64.Basic
/-!
# Floating-point numbers as rationals

`Binary64.toRat` is the number that a sign, a mantissa and a power of two stand for. Whether that is
an integer is decided on the mantissa alone (`Binary64.isIntegral_iff`): a power of two that is not
negative leaves an integer, and a negative one has to divide the mantissa.
-/

set_option autoImplicit false

namespace TypedFlags.Binary64

/-- The number that a floating-point number is. -/
def toRat (x : Binary64) : ℚ :=
  (if x.negative then -1 else 1) * x.mantissa * (2 : ℚ) ^ x.exponent

/-- The number is an integer: there is nothing behind its binary point. -/
def Whole (x : Binary64) : Prop := ∃ n : ℤ, x.toRat = n

/-- The mantissa with its sign. -/
def signed (x : Binary64) : ℤ := (if x.negative then -1 else 1) * x.mantissa

theorem toRat_eq (x : Binary64) : x.toRat = x.signed * (2 : ℚ) ^ x.exponent := by
  unfold toRat signed
  split <;> push_cast <;> ring

theorem dvd_signed_iff {x : Binary64} {d : ℕ} : (d : ℤ) ∣ x.signed ↔ d ∣ x.mantissa := by
  unfold signed
  split
  · rw [neg_one_mul, Int.dvd_neg]
    exact Int.natCast_dvd_natCast
  · rw [one_mul]
    exact Int.natCast_dvd_natCast

/-- **A number is integral exactly if it is an integer.** -/
theorem isIntegral_iff {x : Binary64} : x.isIntegral = true ↔ x.Whole := by
  have hm : x.isIntegral = true ↔ 2 ^ (-x.exponent).toNat ∣ x.mantissa := by
    rw [isIntegral, decide_eq_true_iff]
    exact Nat.dvd_iff_mod_eq_zero.symm
  rw [hm]
  rcases le_or_gt 0 x.exponent with h | h
  · obtain ⟨k, hk⟩ := Int.eq_ofNat_of_zero_le h
    have hpow : (-x.exponent).toNat = 0 := by omega
    rw [hpow, pow_zero]
    refine ⟨fun _ => ⟨x.signed * 2 ^ k, ?_⟩, fun _ => one_dvd _⟩
    rw [toRat_eq, hk, zpow_natCast]
    push_cast
    rfl
  · obtain ⟨k, hk⟩ : ∃ k : ℕ, x.exponent = -k := ⟨(-x.exponent).toNat, by omega⟩
    have hpow : (-x.exponent).toNat = k := by omega
    have h2 : (2 : ℚ) ^ k ≠ 0 := pow_ne_zero k two_ne_zero
    rw [hpow, ← dvd_signed_iff]
    constructor
    · rintro ⟨n, hn⟩
      refine ⟨n, ?_⟩
      rw [toRat_eq, hk, zpow_neg, zpow_natCast, hn]
      push_cast
      field_simp
    · rintro ⟨n, hn⟩
      refine ⟨n, ?_⟩
      rw [toRat_eq, hk, zpow_neg, zpow_natCast, ← div_eq_mul_inv, div_eq_iff h2] at hn
      have : (x.signed : ℚ) = ((2 ^ k : ℕ) : ℚ) * n := by rw [hn]; push_cast; ring
      exact_mod_cast this

end TypedFlags.Binary64
