import Intellibiz.Thresholds

/-!
# Decimals of a bounded mantissa

A decimal is an integer below a bound, divided by a power of ten of at most a given exponent.

* `Fits` — the values that are such a decimal.
* `hold` — a value with as many decimals as the bound leaves room for, rounded.

Principal results: `hold_eq` (a value that fits is kept), `hold_spec` (the decimals that are kept)
and `hold_intCast_eq_none` (an integer beyond the bound).
-/

namespace FixedPoint

open Rounding

/-- A multiple of `10 ^ -p`, for some `p ≤ P`, of less than `B` units. -/
def Fits (B P : ℕ) (q : ℚ) : Prop := ∃ (n : ℤ) (p : ℕ), p ≤ P ∧ q = n / 10 ^ p ∧ |n| < B

/-- `q` rounded to the most decimals, at most `P`, with which it has less than `B` units. -/
def hold (ρ : ℚ → ℤ) (B : ℕ) : ℕ → ℚ → Option ℚ
  | 0, q => if |ρ q| < B then some (ρ q : ℚ) else none
  | p + 1, q =>
    if |ρ (q * 10 ^ (p + 1))| < B then some ((ρ (q * 10 ^ (p + 1)) : ℚ) / 10 ^ (p + 1))
    else hold ρ B p q

theorem Fits.int {B P : ℕ} {n : ℤ} (h : |n| < B) : Fits B P n :=
  ⟨n, 0, Nat.zero_le _, by simp, h⟩

section Hold

variable {ρ : ℚ → ℤ} {B P : ℕ} {q z : ℚ}

/-- **The decimals that are kept**: all of them, or one more would be too many. -/
theorem hold_spec (h : hold ρ B P q = some z) :
    ∃ p ≤ P, z = ρ (q * 10 ^ p) / 10 ^ p ∧ |ρ (q * 10 ^ p)| < B ∧
      (p = P ∨ B ≤ |ρ (q * 10 ^ (p + 1))|) := by
  induction P with
  | zero =>
    unfold hold at h
    split at h
    · rename_i hlt
      cases h
      exact ⟨0, le_rfl, by simp, by simpa using hlt, .inl rfl⟩
    · cases h
  | succ p ih =>
    unfold hold at h
    split at h
    · rename_i hlt
      cases h
      exact ⟨p + 1, le_rfl, rfl, hlt, .inl rfl⟩
    · rename_i hlarge
      obtain ⟨p', hp', hz, hlt, hnext⟩ := ih h
      refine ⟨p', by omega, hz, hlt, .inr ?_⟩
      rcases hnext with rfl | hnext
      · exact not_lt.1 hlarge
      · exact hnext

theorem fits_of_hold (h : hold ρ B P q = some z) : Fits B P z := by
  obtain ⟨p, hp, hz, hlt, -⟩ := hold_spec h
  exact ⟨_, p, hp, hz, hlt⟩

theorem le_of_hold_eq_none (h : hold ρ B P q = none) : (B : ℤ) ≤ |ρ q| := by
  induction P with
  | zero =>
    unfold hold at h
    split at h
    · cases h
    · rename_i hlarge
      exact not_lt.1 hlarge
  | succ p ih =>
    unfold hold at h
    split at h
    · cases h
    · exact ih h

section Error

variable (hρ : ∀ q, |q - ρ q| ≤ 1 / 2)

include hρ

theorem abs_round_le (q : ℚ) : |(ρ q : ℚ)| ≤ |q| + 1 / 2 := by
  have htriangle := abs_sub_abs_le_abs_sub (ρ q : ℚ) q
  rw [abs_sub_comm] at htriangle
  linarith [hρ q]

theorem abs_le_round (q : ℚ) : |q| ≤ |(ρ q : ℚ)| + 1 / 2 := by
  have htriangle := abs_sub_abs_le_abs_sub q (ρ q : ℚ)
  linarith [hρ q]

/-- With `p` decimals, the error is at most half a unit of the last one. -/
theorem abs_decimals_sub_le (p : ℕ) (q : ℚ) : |ρ (q * 10 ^ p) / 10 ^ p - q| ≤ 1 / 2 := by
  have hpow : (1 : ℚ) ≤ 10 ^ p := one_le_pow₀ (by norm_num)
  have hpos : (0 : ℚ) < 10 ^ p := by positivity
  have hdiff : ρ (q * 10 ^ p) / 10 ^ p - q = (ρ (q * 10 ^ p) - q * 10 ^ p) / 10 ^ p := by
    field_simp
  rw [hdiff, abs_div, abs_of_pos hpos, div_le_iff₀ hpos, abs_sub_comm]
  linarith [hρ (q * 10 ^ p)]

theorem abs_hold_sub_le (h : hold ρ B P q = some z) : |z - q| ≤ 1 / 2 := by
  obtain ⟨p, -, rfl, -⟩ := hold_spec h
  exact abs_decimals_sub_le hρ p q

end Error

variable (hint : ∀ n : ℤ, ρ n = n)

include hint in
/-- **A value that fits is kept.** -/
theorem hold_eq (h : Fits B P q) : hold ρ B P q = some q := by
  obtain ⟨n, p, hp, rfl, hn⟩ := h
  induction P with
  | zero =>
    obtain rfl : p = 0 := by omega
    unfold hold
    rw [pow_zero, div_one, hint, if_pos hn]
  | succ P ih =>
    obtain ⟨k, hk⟩ := Nat.exists_eq_add_of_le hp
    have hscaled : (n : ℚ) / 10 ^ p * 10 ^ (P + 1) = ((n * 10 ^ k : ℤ) : ℚ) := by
      rw [hk, pow_add]
      push_cast
      field_simp
    unfold hold
    rw [hscaled, hint]
    split
    · rw [← hscaled]
      congr 1
      field_simp
    · rename_i hlarge
      apply ih
      by_contra hlt
      obtain rfl : k = 0 := by omega
      rw [pow_zero, mul_one] at hlarge
      exact hlarge hn

include hint in
theorem hold_intCast_eq_none {n : ℤ} (h : (B : ℤ) ≤ |n|) : hold ρ B P (n : ℚ) = none := by
  induction P with
  | zero =>
    unfold hold
    rw [hint, if_neg (by omega)]
  | succ p ih =>
    have hscaled : (n : ℚ) * 10 ^ (p + 1) = ((n * 10 ^ (p + 1) : ℤ) : ℚ) := by
      push_cast
      rfl
    have hlarge : |n| ≤ |n * 10 ^ (p + 1)| := by
      rw [abs_mul]
      exact le_mul_of_one_le_right (abs_nonneg n) (Int.one_le_abs (by positivity))
    unfold hold
    rw [hscaled, hint, if_neg (by omega)]
    exact ih

include hint in
/-- A decimal times a power of ten is held exactly or not at all. -/
theorem hold_mul_pow (hz : Fits B P q) {d : ℕ} (h : hold ρ B P (q * 10 ^ d) = some z) :
    z = q * 10 ^ d := by
  obtain ⟨n, p, hp, rfl, hn⟩ := hz
  rcases le_total d p with hle | hle
  · -- the decimals move before the point
    obtain ⟨k, rfl⟩ := Nat.exists_eq_add_of_le hle
    have hscaled : (n : ℚ) / 10 ^ (d + k) * 10 ^ d = n / 10 ^ k := by
      rw [pow_add]
      field_simp
    rw [hscaled, hold_eq hint ⟨n, k, by omega, rfl, hn⟩] at h
    rw [hscaled]
    exact (Option.some.inj h).symm
  · obtain ⟨k, rfl⟩ := Nat.exists_eq_add_of_le hle
    have hscaled : (n : ℚ) / 10 ^ p * 10 ^ (p + k) = ((n * 10 ^ k : ℤ) : ℚ) := by
      rw [pow_add]
      push_cast
      field_simp
    rw [hscaled] at h ⊢
    by_cases hlarge : (B : ℤ) ≤ |n * 10 ^ k|
    · rw [hold_intCast_eq_none hint hlarge] at h
      cases h
    · rw [hold_eq hint (Fits.int (by omega))] at h
      exact (Option.some.inj h).symm

end Hold

end FixedPoint
