import Intellibiz.Formula.Engine
import Intellibiz.Rules.Accounts

/-!
# Currencies of the pipeline

The rule rounds the tax to hundredths, whatever the currency.

* `WholeUnits` — amounts in the minor units of a currency.
* `RuleResult.Payable` — tax and amount are in minor units, and the tax is the exact one, rounded.

Principal result: `payable_iff`.
-/

namespace Intellibiz.Rules

open FixedPoint Numeral Rounding

/-- A whole number of units of `10 ^ -places`. -/
def WholeUnits (places : ℕ) (q : ℚ) : Prop := ∃ n : ℤ, q * 10 ^ places = n

/-- Tax and amount are payable in minor units of `10 ^ -places`, for the exact tax `x`. -/
structure RuleResult.Payable (result : RuleResult) (places : ℕ) (x : ℚ) : Prop where
  tax : ∃ q, value? result.taxAmount = some q ∧ WholeUnits places q ∧
    q = halfEven (x * 10 ^ places) / 10 ^ places
  adjusted : ∃ q, value? result.adjustedAmount = some q ∧ WholeUnits places q

section Currency

variable {R : RustDecimal} {ctx : RuleContext} {d : R.Decimal} {places : ℕ} {q : ℚ}

theorem wholeUnits_div (places : ℕ) (n : ℤ) : WholeUnits places (n / 10 ^ places) :=
  ⟨n, div_mul_cancel₀ _ (by positivity)⟩

theorem WholeUnits.add {q' : ℚ} (h : WholeUnits places q) (h' : WholeUnits places q') :
    WholeUnits places (q + q') := by
  obtain ⟨m, hm⟩ := h
  obtain ⟨n, hn⟩ := h'
  exact ⟨m + n, by rw [add_mul, hm, hn, Int.cast_add]⟩

/-- The rates are whole percents, so the tax of whole units is in hundredths of them. -/
theorem exactTax_hundredths (h : ctx.rate ≠ 0) (hunits : WholeUnits 0 q) :
    ∃ k : ℤ, exactTax q ctx.rate * 100 = k := by
  obtain ⟨⟨percent, hpercent⟩, -⟩ := vatBasisPoints_spec (vatBasisPoints_eq_rate h) h
  obtain ⟨n, hn⟩ := hunits
  rw [pow_zero, mul_one] at hn
  refine ⟨n * percent, ?_⟩
  rw [exactTax, hpercent, hn]
  push_cast
  ring

/-- An amount is payable if the tax is the exact one, rounded, and its sum with the amount does not
overflow; the sum has no more decimals than the two. -/
theorem payable_iff_cents (hd : R.fromStr ctx.amount = some d) (hplaces : places ≤ 28)
    (hunits : WholeUnits places (R.value d)) :
    (∃ result, evaluate R ctx = some (.ok result) ∧
        result.Payable places (exactTax (R.value d) ctx.rate)) ↔
      (cents (exactTax (R.value d) ctx.rate) : ℚ) / 100 = taxDue places (R.value d) ctx.rate ∧
        |halfEven (R.value d + taxDue places (R.value d) ctx.rate)| < 2 ^ 96 := by
  obtain ⟨tax, htax, hcase⟩ := evaluate_cases hd
  have hoverflow : hold halfEven (2 ^ 96) 28 (R.value d + R.value tax) = none ↔
      ((2 ^ 96 : ℕ) : ℤ) ≤ |halfEven (R.value d + R.value tax)| :=
    hold_eq_none_iff abs_sub_halfEven_le
  rw [← htax]
  constructor
  · rintro ⟨result, hok, hpayable⟩
    rcases hcase with ⟨-, hpanic⟩ | ⟨amount, applied, hsum, hresult⟩
    · rw [hpanic] at hok
      cases hok
    · rw [hresult] at hok
      cases hok
      obtain ⟨q, htext, -, hdue⟩ := hpayable.tax
      rw [R.toText_eq] at htext
      have hsame : R.value tax = taxDue places (R.value d) ctx.rate :=
        (Option.some_inj.1 htext).trans hdue
      refine ⟨hsame, ?_⟩
      by_contra hlarge
      rw [← hsame] at hlarge
      rw [hoverflow.2 (not_lt.1 hlarge)] at hsum
      cases hsum
  · rintro ⟨hdue, hsmall⟩
    rcases hcase with ⟨hnone, -⟩ | ⟨amount, applied, hsum, hresult⟩
    · rw [← hdue] at hsmall
      exact absurd (hoverflow.1 hnone) (not_le.2 hsmall)
    · have hwhole : WholeUnits places (R.value tax) := by
        rw [hdue]
        exact wholeUnits_div places _
      have hdecimals : WholeUnits places (R.value d + R.value tax) := hunits.add hwhole
      rw [hold_of_decimals halfEven_intCast hplaces hdecimals] at hsum
      exact ⟨_, hresult, ⟨_, R.toText_eq tax, hwhole, hdue⟩, _, R.toText_eq amount,
        decimals_of_hold hsum⟩

/-- The hundredths of the rule are the tax in minor units. -/
theorem cents_eq_taxDue_iff_of_units (hplaces : places = 0 ∨ places = 2 ∨ places = 3)
    (h : ctx.rate ≠ 0) (hunits : WholeUnits places q) :
    (cents (exactTax q ctx.rate) : ℚ) / 100 = taxDue places q ctx.rate ↔
      RoundsTo places (exactTax q ctx.rate) := by
  apply cents_eq_taxDue_iff
  rcases hplaces with rfl | hplaces
  · exact .inl ⟨rfl, exactTax_hundredths h hunits⟩
  · exact .inr hplaces

/-- **When an amount in minor units is payable**: no rate applies, or the exact tax is the same in
minor units as in the hundredths of the rule, and the sum does not overflow. -/
theorem payable_iff (R : RustDecimal) (ctx : RuleContext) (d : R.Decimal) (places : ℕ)
    (hplaces : Formula.currencyDecimals ctx.currency = .ok places)
    (hd : R.fromStr ctx.amount = some d) (hunits : WholeUnits places (R.value d)) :
    (∃ result, evaluate R ctx = some (.ok result) ∧
        result.Payable places (exactTax (R.value d) ctx.rate)) ↔
      ctx.rate = 0 ∨ (RoundsTo places (exactTax (R.value d) ctx.rate) ∧
        |halfEven (R.value d + taxDue places (R.value d) ctx.rate)| < 2 ^ 96) := by
  have hcases := Formula.currencyDecimals_cases hplaces
  rw [payable_iff_cents hd (by omega) hunits]
  by_cases h : ctx.rate = 0
  · refine iff_of_true ?_ (.inl h)
    rw [h, exactTax_zero, cents_zero, taxDue_zero, Int.cast_zero, zero_div, add_zero]
    refine ⟨rfl, not_le.1 fun hlarge => ?_⟩
    have hnone := (hold_eq_none_iff (P := 28) abs_sub_halfEven_le).2 hlarge
    rw [hold_eq halfEven_intCast (R.fits d)] at hnone
    cases hnone
  · rw [cents_eq_taxDue_iff_of_units hcases h hunits, or_iff_right h]

/-- A purchase of a hundred dollars. -/
theorem dollars_payable :
    ∃ result, evaluate decimals (purchase "100.00" "USD" none) = some (.ok result) ∧
      result.Payable 2 19 := by
  have hvalue : value? "100.00" = some 100 := by decide +kernel
  have hfits : Fits (2 ^ 96) 28 (100 : ℚ) := ⟨100, 0, by omega, by norm_num, by norm_num⟩
  obtain ⟨d, hd, hamount⟩ := decimals.exists_fromStr hvalue hfits
  have hrate : (purchase "100.00" "USD" none).rate.toNat = 1900 := by decide
  have htax : exactTax (decimals.value d) (purchase "100.00" "USD" none).rate = 19 := by
    rw [exactTax, hamount, hrate]
    norm_num
  have hdue : taxDue 2 (decimals.value d) (purchase "100.00" "USD" none).rate = 19 := by
    rw [taxDue, htax]
    have hround := halfEven_intCast 1900
    norm_num at hround ⊢
    rw [hround]
    norm_num
  have hsum : |halfEven (decimals.value d +
      taxDue 2 (decimals.value d) (purchase "100.00" "USD" none).rate)| < 2 ^ 96 := by
    rw [hdue, hamount]
    have hround := halfEven_intCast 119
    norm_num at hround ⊢
    rw [hround]
    norm_num
  have hpayable := payable_iff decimals (purchase "100.00" "USD" none) d 2 (by decide) hd
    ⟨10000, by rw [hamount]; norm_num⟩
  rw [htax] at hpayable
  refine hpayable.2 (.inr ⟨roundsTo_of_fits ⟨19, 0, by omega, by norm_num, by norm_num⟩, hsum⟩)

/-- The tax on 101 yen has hundredths. -/
theorem yen_not_payable :
    Formula.currencyDecimals "JPY" = .ok 0 ∧ ∃ d, decimals.fromStr "101" = some d ∧
      WholeUnits 0 (decimals.value d) ∧
      ¬ ∃ result, evaluate decimals (purchase "101" "JPY" none) = some (.ok result) ∧
        result.Payable 0 (exactTax (decimals.value d) (purchase "101" "JPY" none).rate) := by
  have hvalue : value? "101" = some 101 := by decide
  have hfits : Fits (2 ^ 96) 28 (101 : ℚ) := ⟨101, 0, by omega, by norm_num, by norm_num⟩
  obtain ⟨d, hd, hamount⟩ := decimals.exists_fromStr hvalue hfits
  refine ⟨by decide, d, hd, ⟨101, by rw [hamount]; norm_num⟩, ?_⟩
  rintro ⟨result, hresult, hpayable⟩
  have htax : ((evaluate decimals (purchase "101" "JPY" none)).bind (·.toOption)).map
      (·.taxAmount) = some "19.19" := by decide +kernel
  rw [hresult] at htax
  have htext : result.taxAmount = "19.19" := Option.some_inj.1 htax
  have hcents : value? "19.19" = some (1919 / 100) := rfl
  obtain ⟨q, hq, ⟨n, hn⟩, -⟩ := hpayable.tax
  rw [htext, hcents] at hq
  cases hq
  have hwhole : (1919 : ℚ) = ((100 * n : ℤ) : ℚ) := by
    push_cast
    rw [← hn]
    norm_num
  have hint : (1919 : ℤ) = 100 * n := by exact_mod_cast hwhole
  omega

end Currency

end Intellibiz.Rules
