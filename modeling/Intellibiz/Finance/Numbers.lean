import Intellibiz.Finance.Money
import Intellibiz.Thresholds

/-!
# Integers as numbers

Which integers `toNumber()` turns into a given one.

Principal results: `double_of_close` (the integers around a number), `double_succ_eq_iff` (the next
integer) and `double_eq_iff`.
-/

namespace Intellibiz.Finance

open Rounding

@[simp] theorem double_neg (q : ℚ) : double (-q) = -double q := roundDigits_neg q

theorem representable_double (q : ℚ) : Representable 2 53 (double q) :=
  representable_roundDigits (by decide) q

theorem double_of_close {n q : ℚ} (hn : Representable 2 53 n) (h : |q - n| < |n| / 2 ^ 54) :
    double q = n := by
  refine roundDigits_eq_of_close (by decide) (by decide) hn (h.trans_eq ?_)
  have hpow : (((2 : ℕ) : ℚ) ^ (-((53 : ℕ) : ℤ))) = 1 / 2 ^ 53 := by
    rw [zpow_neg, zpow_natCast]
    norm_num
  rw [hpow]
  ring

theorem abs_double_sub_le (q : ℚ) : |double q - q| ≤ |q| / 2 ^ 53 := by
  have herr := abs_roundDigits_sub_le (b := 2) (p := 53) (q := q) (by decide)
  have hpow : (((2 : ℕ) : ℚ) ^ (1 - ((53 : ℕ) : ℤ))) = 1 / 2 ^ 52 := by
    rw [show (1 : ℤ) - ((53 : ℕ) : ℤ) = -((52 : ℕ) : ℤ) by norm_num, zpow_neg, zpow_natCast]
    norm_num
  rw [hpow] at herr
  exact herr.trans_eq (by ring)

/-- A number read and multiplied, two roundings. -/
theorem abs_double_mul_sub_le {q b : ℚ} (hb : 0 ≤ b) :
    |double (double q * b) - q * b| ≤ |q * b| * (1 / 2 ^ 52 + 1 / 2 ^ 106) := by
  have hread : |double q * b - q * b| ≤ |q * b| / 2 ^ 53 := by
    rw [← sub_mul, abs_mul, abs_mul, abs_of_nonneg hb]
    calc |double q - q| * b ≤ |q| / 2 ^ 53 * b :=
          mul_le_mul_of_nonneg_right (abs_double_sub_le q) hb
      _ = |q| * b / 2 ^ 53 := by ring
  have hprod := abs_double_sub_le (double q * b)
  have hsize : |double q * b| ≤ |double q * b - q * b| + |q * b| := by
    have htri := abs_add_le (double q * b - q * b) (q * b)
    rwa [sub_add_cancel] at htri
  have hsum := abs_sub_le (double (double q * b)) (double q * b) (q * b)
  linarith

theorem double_neg_iff {q : ℚ} : double q < 0 ↔ q < 0 := by
  have herr := abs_le.1 (abs_double_sub_le q)
  constructor
  · intro h
    by_contra hq
    rw [abs_of_nonneg (not_lt.1 hq)] at herr
    linarith
  · intro h
    rw [abs_of_neg h] at herr
    linarith

theorem ne_zero_of_double {q : ℚ} (h : q ≠ 0) : double q ≠ 0 := by
  intro hzero
  have herr := abs_double_sub_le q
  rw [hzero, zero_sub, abs_neg] at herr
  have hpos := abs_pos.2 h
  linarith

/-! ## The next integer -/

section Next

variable {t : ℤ}

/-- A number from `2 ^ 53` on is a multiple of its unit, and that of the next integer. -/
theorem unit_of_large (ht : 2 ^ 53 ≤ t) (hrep : Representable 2 53 (t : ℚ)) :
    ∃ (k : ℕ) (j : ℤ), t = j * 2 ^ (k + 1) ∧
      lastDigit 2 53 ((t : ℚ) + 1) = ((k + 1 : ℕ) : ℤ) := by
  have htq : (2 : ℚ) ^ 53 ≤ t := by exact_mod_cast ht
  have hpos : (0 : ℚ) < t := by linarith
  obtain ⟨hlow, hhigh⟩ := log_bounds (b := 2) (by decide) hpos
  set L := Int.log 2 |(t : ℚ)| with hL
  have hL53 : 53 ≤ L := by
    rw [hL, abs_of_pos hpos, ← Int.zpow_le_iff_le_log (by decide) hpos]
    exact_mod_cast htq
  obtain ⟨k, hk⟩ := Int.eq_ofNat_of_zero_le (show 0 ≤ L - 53 by omega)
  have hlast : lastDigit 2 53 (t : ℚ) = ((k + 1 : ℕ) : ℤ) := by
    unfold lastDigit
    push_cast
    omega
  obtain ⟨j, hj⟩ := hrep.multiple (by decide) (by decide)
  rw [hlast, zpow_natCast] at hj
  have hjint : t = j * 2 ^ (k + 1) := by exact_mod_cast hj
  refine ⟨k, j, hjint, ?_⟩
  -- the next integer is odd, so it is not the next power of two
  have hsucc : (t : ℚ) + 1 < (2 : ℕ) ^ (L + 1) := by
    have hpow : (((2 : ℕ) : ℚ) ^ (L + 1)) = ((2 ^ (k + 54) : ℤ) : ℚ) := by
      rw [show L + 1 = ((k + 54 : ℕ) : ℤ) by push_cast; omega, zpow_natCast]
      push_cast
      rfl
    rw [hpow] at hhigh ⊢
    have hint : t < 2 ^ (k + 54) := by exact_mod_cast hhigh
    have heven : (2 : ℤ) ∣ t := ⟨j * 2 ^ k, by rw [hjint, pow_succ]; ring⟩
    have heven' : (2 : ℤ) ∣ 2 ^ (k + 54) := dvd_pow_self 2 (by omega)
    have hint' : t + 1 < 2 ^ (k + 54) := by omega
    exact_mod_cast hint'
  have hlog : Int.log 2 |(t : ℚ) + 1| = L := by
    have hpos1 : (0 : ℚ) < t + 1 := by linarith
    rw [abs_of_pos hpos1]
    apply le_antisymm
    · have hlt := (Int.lt_zpow_iff_log_lt (by decide) hpos1).1 hsucc
      omega
    · rw [← Int.zpow_le_iff_le_log (by decide) hpos1]
      linarith
  unfold lastDigit at hlast ⊢
  omega

/-- **The integer after a number is rounded to it exactly if four divides the number.** -/
theorem double_succ_eq_iff (ht : 2 ^ 53 ≤ t) (hrep : Representable 2 53 (t : ℚ)) :
    double ((t : ℚ) + 1) = t ↔ 4 ∣ t := by
  obtain ⟨k, j, hj, hlast⟩ := unit_of_large ht hrep
  have hpow : (0 : ℚ) < 2 ^ (k + 1) := by positivity
  have hquot : ((t : ℚ) + 1) / 2 ^ (k + 1) = j + 1 / 2 ^ (k + 1) := by
    rw [hj]
    push_cast
    field_simp
  have hdouble : double ((t : ℚ) + 1) = halfEven (j + 1 / 2 ^ (k + 1)) * 2 ^ (k + 1) := by
    rw [double, roundDigits, hlast, zpow_natCast, Nat.cast_ofNat, hquot]
  have hself : (t : ℚ) = j * 2 ^ (k + 1) := by exact_mod_cast hj
  rw [hdouble]
  conv_lhs => rw [hself]
  rw [mul_left_inj' hpow.ne', Int.cast_inj, halfEven_eq_iff]
  have hdist : |(j : ℚ) + 1 / 2 ^ (k + 1) - j| = 1 / 2 ^ (k + 1) := by
    rw [add_sub_cancel_left, abs_of_pos (by positivity)]
  rw [Near, hdist]
  cases k with
  | zero =>
    -- the unit is two, and the next integer a tie
    have hfour : (4 : ℤ) ∣ t ↔ Even j := by
      rw [Int.even_iff, hj]
      omega
    rw [hfour]
    norm_num
  | succ k =>
    have hfour : (4 : ℤ) ∣ t := ⟨j * 2 ^ k, by rw [hj, pow_succ, pow_succ]; ring⟩
    have hsmall : (1 : ℚ) / 2 ^ (k + 1 + 1) < 1 / 2 := by
      have hone : (1 : ℚ) ≤ 2 ^ k := one_le_pow₀ (by norm_num)
      rw [pow_succ, pow_succ]
      apply one_div_lt_one_div_of_lt (by norm_num)
      linarith
    exact ⟨fun _ => hfour, fun _ => .inl hsmall⟩

theorem double_succ_eq (ht : 0 ≤ t) :
    double ((t : ℚ) + 1) = t ↔ Representable 2 53 (t : ℚ) ∧ 2 ^ 53 ≤ t ∧ 4 ∣ t := by
  constructor
  · intro h
    have hrep : Representable 2 53 (t : ℚ) := by
      rw [← h]
      exact representable_double _
    have hlarge : 2 ^ 53 ≤ t := by
      by_contra hsmall
      have hself := @double_int (t + 1) (by rw [abs_of_nonneg (by omega)]; omega)
      push_cast at hself
      rw [hself] at h
      linarith
    exact ⟨hrep, hlarge, (double_succ_eq_iff hlarge hrep).1 h⟩
  · rintro ⟨hrep, hlarge, hfour⟩
    exact (double_succ_eq_iff hlarge hrep).2 hfour

end Next

/-- `k` is `t`, or the next integer away from zero. -/
def NextTo (t k : ℤ) : Prop := k = t ∨ (0 ≤ t ∧ k = t + 1) ∨ (t ≤ 0 ∧ k = t - 1)

/-- **When such an integer, as a number, is `t`.** -/
theorem double_eq_iff {t k : ℤ} (h : NextTo t k) :
    double k = t ↔ Representable 2 53 (t : ℚ) ∧ (k = t ∨ (2 ^ 53 ≤ |t| ∧ 4 ∣ t)) := by
  by_cases hself : k = t
  · subst hself
    simp only [true_or, and_true]
    constructor
    · intro hdouble
      rw [← hdouble]
      exact representable_double _
    · exact fun hrep => roundDigits_eq (by decide) (by decide) hrep
  rcases h with h | ⟨ht, rfl⟩ | ⟨ht, rfl⟩
  · exact absurd h hself
  · have hnext := double_succ_eq ht
    push_cast
    rw [hnext, abs_of_nonneg ht]
    simp
  · have hnext := @double_succ_eq (-t) (by omega)
    have hflip : double ((t : ℚ) - 1) = t ↔ double (((-t : ℤ) : ℚ) + 1) = (-t : ℤ) := by
      rw [show ((-t : ℤ) : ℚ) + 1 = -((t : ℚ) - 1) by push_cast; ring, double_neg]
      push_cast
      rw [neg_inj]
    have hrep : Representable 2 53 ((-t : ℤ) : ℚ) ↔ Representable 2 53 (t : ℚ) := by
      push_cast
      constructor
      · intro hneg
        rw [← neg_neg (t : ℚ)]
        exact hneg.neg
      · exact Representable.neg
    push_cast
    rw [hflip, hnext, hrep, abs_of_nonpos ht, Int.dvd_neg]
    simp

end Intellibiz.Finance
