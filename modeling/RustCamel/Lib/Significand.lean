-- Whole numbers rounded to a number of significant bits, to the nearest and on a tie to the even
-- one, as a conversion to a binary floating point number rounds them.
import Mathlib.Algebra.Order.Ring.Nat
import Mathlib.Data.Nat.Log

namespace Significand

/-- The number of low bits that do not fit beside `p` significant ones. -/
def excess (p m : Nat) : Nat := Nat.log 2 m + 1 - p

/-- The multiple of `2 ^ e` next to `m`, the even one of two. -/
def roundAt (e m : Nat) : Nat :=
  if 2 * (m % 2 ^ e) < 2 ^ e ∨ (2 * (m % 2 ^ e) = 2 ^ e ∧ m / 2 ^ e % 2 = 0) then
    m / 2 ^ e * 2 ^ e
  else (m / 2 ^ e + 1) * 2 ^ e

def round (p m : Nat) : Nat := roundAt (excess p m) m

/-- A rounding to both sides of zero. -/
def roundInt (p : Nat) (z : Int) : Int := z.sign * round p z.natAbs

theorem le_roundAt (e m : Nat) : m / 2 ^ e * 2 ^ e ≤ roundAt e m := by
  unfold roundAt
  split
  · exact le_rfl
  · exact Nat.mul_le_mul_right _ (Nat.le_succ _)

theorem roundAt_le (e m : Nat) : roundAt e m ≤ (m / 2 ^ e + 1) * 2 ^ e := by
  unfold roundAt
  split
  · exact Nat.mul_le_mul_right _ (Nat.le_succ _)
  · exact le_rfl

theorem roundAt_mono (e : Nat) {m n : Nat} (h : m ≤ n) : roundAt e m ≤ roundAt e n := by
  rcases Nat.lt_or_eq_of_le (Nat.div_le_div_right (c := 2 ^ e) h) with hl | hs
  · calc roundAt e m ≤ (m / 2 ^ e + 1) * 2 ^ e := roundAt_le e m
      _ ≤ n / 2 ^ e * 2 ^ e := Nat.mul_le_mul_right _ hl
      _ ≤ roundAt e n := le_roundAt e n
  · -- of two numbers between the same multiples the larger one has the larger rest
    have hr : m % 2 ^ e ≤ n % 2 ^ e := by
      have hm := Nat.div_add_mod m (2 ^ e)
      have hn := Nat.div_add_mod n (2 ^ e)
      rw [hs] at hm
      omega
    unfold roundAt
    rw [hs]
    split
    · split
      · exact le_rfl
      · exact Nat.mul_le_mul_right _ (Nat.le_succ _)
    · split
      · omega
      · exact le_rfl

theorem lt_two_pow_excess (p m : Nat) : m < 2 ^ (p + excess p m) := by
  have hl := Nat.lt_pow_succ_log_self (by decide : 1 < 2) m
  refine hl.trans_le (Nat.pow_le_pow_right (by decide) ?_)
  unfold excess
  omega

variable {p : Nat}

theorem two_pow_le_of_excess {m : Nat} (hp : 0 < p) (h : 0 < excess p m) :
    2 ^ (p - 1 + excess p m) ≤ m := by
  have hn : m ≠ 0 := by
    rintro rfl
    simp only [excess, Nat.log_zero_right] at h
    omega
  have hl := Nat.pow_log_le_self 2 hn
  refine (Nat.pow_le_pow_right (by decide) ?_).trans hl
  unfold excess at h ⊢
  omega

theorem round_mono (hp : 0 < p) {m n : Nat} (h : m ≤ n) : round p m ≤ round p n := by
  have he : excess p m ≤ excess p n := by
    have hlo := Nat.log_mono_right (b := 2) h
    unfold excess
    omega
  unfold round
  rcases Nat.lt_or_eq_of_le he with hl | hs
  · -- a power of two stands between them, and roundings do not pass it
    have hm : m / 2 ^ excess p m < 2 ^ p := by
      rw [Nat.div_lt_iff_lt_mul (Nat.two_pow_pos _), ← Nat.pow_add]
      exact lt_two_pow_excess p m
    have hn : 2 ^ (p - 1) ≤ n / 2 ^ excess p n := by
      rw [Nat.le_div_iff_mul_le (Nat.two_pow_pos _), ← Nat.pow_add]
      exact two_pow_le_of_excess hp (by omega)
    calc roundAt (excess p m) m ≤ (m / 2 ^ excess p m + 1) * 2 ^ excess p m := roundAt_le _ _
      _ ≤ 2 ^ p * 2 ^ excess p m := Nat.mul_le_mul_right _ hm
      _ = 2 ^ (p + excess p m) := (Nat.pow_add _ _ _).symm
      _ ≤ 2 ^ (p - 1 + excess p n) := Nat.pow_le_pow_right (by decide) (by omega)
      _ = 2 ^ (p - 1) * 2 ^ excess p n := Nat.pow_add _ _ _
      _ ≤ n / 2 ^ excess p n * 2 ^ excess p n := Nat.mul_le_mul_right _ hn
      _ ≤ roundAt (excess p n) n := le_roundAt _ _
  · rw [hs]
    exact roundAt_mono _ h

theorem roundInt_mono (hp : 0 < p) ⦃a b : Int⦄ (hab : a ≤ b) : roundInt p a ≤ roundInt p b := by
  unfold roundInt
  rcases lt_trichotomy a 0 with ha | rfl | ha
  · rcases lt_or_ge b 0 with hb | hb
    · have habs : b.natAbs ≤ a.natAbs := by omega
      have := round_mono hp habs
      rw [Int.sign_eq_neg_one_of_neg ha, Int.sign_eq_neg_one_of_neg hb]
      omega
    · rw [Int.sign_eq_neg_one_of_neg ha]
      have hs : 0 ≤ b.sign * round p b.natAbs :=
        Int.mul_nonneg (Int.sign_nonneg_iff.mpr hb) (Int.natCast_nonneg _)
      omega
  · have hs : 0 ≤ b.sign * round p b.natAbs :=
      Int.mul_nonneg (Int.sign_nonneg_iff.mpr hab) (Int.natCast_nonneg _)
    simpa using hs
  · have hb : 0 < b := by omega
    have habs : a.natAbs ≤ b.natAbs := by omega
    have := round_mono hp habs
    rw [Int.sign_eq_one_of_pos ha, Int.sign_eq_one_of_pos hb]
    omega

end Significand
