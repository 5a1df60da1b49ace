import Intellibiz.Finance.Cart

/-!
# The explicit tax rate

`calculateTotal` turns an explicit rate into whole basis points and back before it applies it.

* `Honours` — the tax is the subtotal times the rate, and the rate is reported.

Principal results: `taxRateBP_spec` (the basis points of a rate), `taxRate_reported` (the rate that
is reported, as text) and `taxRate_honoured_iff`.
-/

namespace Intellibiz.Finance

open Rounding

/-- The cart has totals, with the rate `q` reported and, where 28 digits are enough, applied. -/
def Honours (input : TotalInput) (q : ℚ) : Prop :=
  ∃ r, calculateTotal input = .ok r ∧ written r.taxRate = q ∧
    (Representable 10 PRECISION (r.subtotal.amount * q) →
      r.taxTotal.amount = r.subtotal.amount * q)

section Rates

variable {input : TotalInput} {q : ℚ}

/-- Basis points as they are calculated from a rate between 0 and 1. -/
theorem abs_basisPoints_sub_le (h0 : 0 ≤ q) (h1 : q ≤ 1) :
    |double (double q * 10000) - q * 10000| < 1 / 2 := by
  have hread := abs_double_sub_le q
  have hprod := abs_double_sub_le (double q * 10000)
  rw [abs_of_nonneg h0] at hread
  obtain ⟨hlow, hhigh⟩ := abs_le.1 hread
  have hsize : |double q * 10000| ≤ 20000 := abs_le.2 ⟨by linarith, by linarith⟩
  obtain ⟨hlow', hhigh'⟩ := abs_le.1 hprod
  rw [abs_lt]
  constructor <;> linarith

theorem mathRound_of_close {x : ℚ} {k : ℤ} (h : |x - k| < 1 / 2) : mathRound x = k := by
  obtain ⟨hlow, hhigh⟩ := abs_lt.1 h
  unfold mathRound
  rw [Int.floor_eq_iff]
  constructor <;> linarith

/-- **The basis points of a rate**: between none and all, and its own where they are whole. -/
theorem taxRateBP_spec (hrate : input.taxRate = some (double q)) (h0 : 0 ≤ q) (h1 : q ≤ 1) :
    0 ≤ taxRateBP input ∧ taxRateBP input ≤ 10000 ∧
      ∀ k : ℤ, q = k / 10 ^ 4 → taxRateBP input = k := by
  have hbp : taxRateBP input = mathRound (double (double q * 10000)) := by
    unfold taxRateBP
    rw [hrate]
  have hclose := abs_basisPoints_sub_le h0 h1
  obtain ⟨hlow, hhigh⟩ := abs_lt.1 hclose
  rw [hbp]
  refine ⟨?_, ?_, fun k hk => mathRound_of_close ?_⟩
  · unfold mathRound
    apply Int.floor_nonneg.2
    linarith
  · unfold mathRound
    have hlt : ⌊double (double q * 10000) + 1 / 2⌋ < 10001 := by
      apply Int.floor_lt.2
      push_cast
      linarith
    omega
  · have hwhole : q * 10000 = k := by
      rw [hk]
      norm_num
    rwa [← hwhole]

/-- **Basis points are reported as what they are.** -/
theorem taxRate_reported {k : ℤ} (h0 : 0 ≤ k) (h1 : k ≤ 10000) :
    written (double (k / 10000)) = k / 10 ^ 4 := by
  have hdigits : Representable 10 15 ((k : ℚ) / 10 ^ 4) :=
    ⟨k, -4, by rw [zpow_neg, div_eq_mul_inv]; norm_num, by
      rw [abs_of_nonneg h0]
      push_cast
      omega⟩
  have hpow : (k : ℚ) / 10000 = k / 10 ^ 4 := by norm_num
  rw [hpow]
  exact written_double hdigits

end Rates

/-- **An explicit rate is honoured exactly if it is a whole number of basis points.** -/
theorem taxRate_honoured_iff (input : TotalInput) (q : ℚ) (hne : input.items ≠ [])
    (hone : ¬ MixedCurrencies input.items) (h0 : 0 ≤ q) (h1 : q ≤ 1)
    (hrate : input.taxRate = some (double q)) :
    Honours input q ↔ ∃ k : ℤ, q = k / 10 ^ 4 := by
  obtain ⟨hlow, hhigh, hwhole⟩ := taxRateBP_spec hrate h0 h1
  obtain ⟨subtotal, currency, htotal⟩ := calculateTotal_of_one hne hone
  have hreported := taxRate_reported hlow hhigh
  unfold Honours
  constructor
  · rintro ⟨r, hr, hrate', -⟩
    rw [htotal] at hr
    cases hr
    exact ⟨taxRateBP input, by rw [← hrate']; exact hreported⟩
  · rintro ⟨k, hk⟩
    refine ⟨_, htotal, ?_, fun hdigits => ?_⟩
    · rw [hk, ← hwhole k hk]
      exact hreported
    · have happlied : written (double (taxRateBP input / 10000)) = q := by
        rw [hreported, hwhole k hk, hk]
      show decimal (subtotal.amount * written (double (taxRateBP input / 10000))) = _
      rw [happlied]
      exact decimal_eq hdigits

theorem cart_not_mixed (price : ℚ) (currency : String) (taxRate : Option ℚ)
    (country : Option String) : ¬ MixedCurrencies (cart price currency taxRate country).items := by
  rintro ⟨i, hi, j, hj, hne⟩
  rw [List.mem_singleton.1 hi, List.mem_singleton.1 hj] at hne
  exact hne rfl

/-- Eight percent. -/
theorem taxRate_honoured_iff_eight :
    Honours (cart 1000 "USD" (some (double (8 / 100))) none) (8 / 100) ↔
      ∃ k : ℤ, (8 / 100 : ℚ) = k / 10 ^ 4 :=
  taxRate_honoured_iff (cart 1000 "USD" (some (double (8 / 100))) none) (8 / 100)
    (by simp [cart]) (cart_not_mixed _ _ _ _) (by norm_num) (by norm_num) rfl

/-- 8.875 percent of a thousand dollars are 88.75; charged and reported are 8.88 percent. -/
theorem halfPoint_not_honoured :
    (calculateTotal (cart 1000 "USD" (some (double (8875 / 100000))) none)).map
        (fun r => (r.taxTotal.amount, written r.taxRate)) = .ok (888 / 10, 888 / 10000) ∧
      ¬ Honours (cart 1000 "USD" (some (double (8875 / 100000))) none) (8875 / 100000) := by
  have htotal : (calculateTotal (cart 1000 "USD" (some (double (8875 / 100000))) none)).map
      (fun r => (r.taxTotal.amount, written r.taxRate)) = .ok (888 / 10, 888 / 10000) := by
    decide +kernel
  refine ⟨htotal, ?_⟩
  rintro ⟨r, hr, hrate, -⟩
  rw [hr] at htotal
  have hreported := congrArg Prod.snd (Except.ok.inj htotal)
  simp only [hrate] at hreported
  norm_num at hreported

end Intellibiz.Finance
