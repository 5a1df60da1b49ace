import Intellibiz.Formula.Engine

/-!
# Minor units as text and back

`from_minor_units` prints an amount of the currency, `to_minor_units` reads it.

Principal results: `fromMinorUnits_eq` (the text) and `minorUnits_roundTrip`.
-/

namespace Intellibiz.Formula

open Rounding FixedPoint MachineInt Numeral

section RoundTrip

variable {R : RustDecimal} {currency : String} {d : ℕ}

theorem fits_minor (minor : Int64) (hd : d ≤ 28) :
    Fits (2 ^ 96) 28 ((minor.toInt : ℚ) / 10 ^ d) :=
  ⟨minor.toInt, d, hd, rfl, (abs_toInt_le minor).trans_lt (by norm_num)⟩

@[simp] theorem toI64_toInt (x : Int64) : toI64 x.toInt = some x := by
  unfold toI64
  rw [truncate_intCast, if_pos (inI64_toInt x), Int64.ofInt_toInt]

/-- The amount is printed with the digits of the currency. -/
theorem fromMinorUnits_eq (minor : Int64) (h : currencyDecimals currency = .ok d) :
    fromMinorUnits R minor currency = some (.ok (fixed d minor.toInt)) := by
  have hd := currencyDecimals_le h
  have hfactor : (Decimal.ofI64 (pow10 d)).value = 10 ^ d := by
    rw [value_ofI64, toInt_pow10 hd]
    push_cast
    rfl
  have hdiv := R.div_eq (.ofI64 minor) (.ofI64 (pow10 d))
  rw [hfactor, value_ofI64] at hdiv
  obtain ⟨result, hresult, hvalue⟩ := Option.map_eq_some_iff.1
    (hdiv (by positivity) (fits_minor minor (by omega)))
  have hformat := R.format_eq d minor.toInt result hvalue
  unfold fromMinorUnits
  rw [h, ← hformat]
  simp only [hresult]
  rfl

theorem toMinorUnits_fixed (minor : Int64) (h : currencyDecimals currency = .ok d) :
    toMinorUnits R (fixed d minor.toInt) currency = some (.ok minor) := by
  have hd := currencyDecimals_le h
  have hread := value?_fixed d minor.toInt
  have hheld : held halfAway ((minor.toInt : ℚ) / 10 ^ d) = some ((minor.toInt : ℚ) / 10 ^ d) :=
    hold_eq halfAway_intCast (fits_minor minor (by omega))
  have hwhole : held halfEven (minor.toInt : ℚ) = some (minor.toInt : ℚ) := by
    have hfits := fits_minor (d := 0) minor (by omega)
    rw [pow_zero, div_one] at hfits
    exact hold_eq halfEven_intCast hfits
  rw [toMinorUnits_eq hread, hheld, h]
  simp only [div_mul_cancel₀ _ (show (10 : ℚ) ^ d ≠ 0 by positivity), hwhole, Option.map_some,
    toI64_toInt, Option.getD_some]

end RoundTrip

/-- **Every amount in minor units is read back from its text**, which has the digits of the
currency behind the point. -/
theorem minorUnits_roundTrip (R : RustDecimal) (minor : Int64) (currency : String) (d : ℕ)
    (h : currencyDecimals currency = .ok d) :
    ∃ text, fromMinorUnits R minor currency = some (.ok text) ∧
      toMinorUnits R text currency = some (.ok minor) ∧ fractionDigits text = d :=
  ⟨_, fromMinorUnits_eq minor h, toMinorUnits_fixed minor h, fractionDigits_fixed d minor.toInt⟩

/-- The least amount, in dollars. -/
theorem minorUnits_roundTrip_minValue :
    ∃ text, fromMinorUnits .reference Int64.minValue "usd" = some (.ok text) ∧
      toMinorUnits .reference text "usd" = some (.ok Int64.minValue) ∧ fractionDigits text = 2 :=
  minorUnits_roundTrip .reference Int64.minValue "usd" 2 (by decide)

end Intellibiz.Formula
