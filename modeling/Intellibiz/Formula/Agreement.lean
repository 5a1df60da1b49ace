import Intellibiz.Finance.Numbers
import Intellibiz.Formula.Refusal

/-!
# Minor units in Rust and in TypeScript

`to_minor_units` of the engine cuts the digits behind the minor unit off, `Money.toMinorUnits`
rounds them half to even and returns a number.

* `SameMinorUnits` — the amounts of which both return the same.

Principal results: `getCurrencyDecimals_eq` (the two precision tables) and `minorUnits_agree_iff`.
-/

namespace Intellibiz.Formula

open Finance Rounding FixedPoint MachineInt Numeral

/-! ## Currencies -/

theorem lookup_zero : ∀ code ∈ zeroDecimals, ISO4217_DECIMALS.lookup code = some 0 := by
  decide

theorem lookup_three : ∀ code ∈ threeDecimals, ISO4217_DECIMALS.lookup code = some 3 := by
  decide

theorem lookup_two : ∀ code ∈ twoDecimals, ISO4217_DECIMALS.lookup code = none := by
  decide

/-- **The precision tables agree on every code that the engine knows.** -/
theorem getCurrencyDecimals_eq {currency : String} {d : ℕ}
    (h : currencyDecimals currency = .ok d) : getCurrencyDecimals currency = d := by
  simp only [currencyDecimals] at h
  unfold getCurrencyDecimals
  split at h
  · rename_i hcode
    cases h
    rw [lookup_zero _ hcode]
    rfl
  · split at h
    · rename_i hcode
      cases h
      rw [lookup_three _ hcode]
      rfl
    · split at h
      · rename_i hcode
        cases h
        rw [lookup_two _ hcode]
        rfl
      · cases h

example : currencyDecimals "KWD" = .ok 3 := by decide +kernel

/-! ## Amounts -/

/-- `x` minor units are in range, their integral part is a number, and they are not rounded up; or
they are, to an integer that `toNumber()` turns back. -/
structure SameMinorUnits (x : ℚ) : Prop where
  inRange : InI64 (truncate x)
  number : Representable 2 53 (truncate x : ℚ)
  notUp : halfEven (decimal x) = truncate x ∨ (2 ^ 53 ≤ |truncate x| ∧ 4 ∣ truncate x)

section Amounts

variable {x : ℚ}

/-- What is rounded half to even, in 28 digits, is the integral part or the next integer. -/
theorem nextTo_halfEven (hin : InI64 (truncate x)) : NextTo (truncate x) (halfEven (decimal x)) := by
  obtain ⟨hlow, hhigh⟩ := inI64_truncate_iff.1 hin
  have habs : |x| ≤ 2 ^ 63 + 1 := abs_le.2 ⟨by linarith, by linarith⟩
  have hdigits := abs_decimal_sub_le x
  have hsmall : |decimal x - x| ≤ 1 / 4 := by
    refine hdigits.trans ?_
    linarith
  obtain ⟨hy, hy'⟩ := abs_le.1 hsmall
  obtain ⟨hk, hk'⟩ := abs_le.1 (abs_sub_halfEven_le (decimal x))
  by_cases hx : 0 ≤ x
  · have ht : truncate x = ⌊x⌋ := if_pos hx
    have hle := Int.floor_le x
    have hlt := Int.lt_floor_add_one x
    have hnonneg : 0 ≤ ⌊x⌋ := Int.floor_nonneg.2 hx
    rw [ht]
    have hge : ((⌊x⌋ - 1 : ℤ) : ℚ) < halfEven (decimal x) := by
      push_cast
      linarith
    have hle' : (halfEven (decimal x) : ℚ) < ((⌊x⌋ + 2 : ℤ) : ℚ) := by
      push_cast
      linarith
    rw [Int.cast_lt] at hge hle'
    unfold NextTo
    omega
  · have ht : truncate x = ⌈x⌉ := if_neg hx
    have hle := Int.le_ceil x
    have hlt := Int.ceil_lt_add_one x
    have hnonpos : ⌈x⌉ ≤ 0 := Int.ceil_le.2 (by push_cast; linarith)
    rw [ht]
    have hge : ((⌈x⌉ - 2 : ℤ) : ℚ) < halfEven (decimal x) := by
      push_cast
      linarith
    have hle' : (halfEven (decimal x) : ℚ) < ((⌈x⌉ + 1 : ℤ) : ℚ) := by
      push_cast
      linarith
    rw [Int.cast_lt] at hge hle'
    unfold NextTo
    omega

/-- An amount out of range is not charged as zero. -/
theorem charged_ne_zero (hout : ¬ InI64 (truncate x)) : double (halfEven (decimal x)) ≠ 0 := by
  have hlarge := large_of_truncate hout
  have hdigits := abs_decimal_sub_le x
  have htri := abs_sub_abs_le_abs_sub x (decimal x)
  have hround := abs_sub_halfEven_le (decimal x)
  apply ne_zero_of_double
  intro hzero
  rw [hzero, sub_zero] at hround
  rw [abs_sub_comm] at htri
  linarith

end Amounts

section Money

variable {R : RustDecimal} {amount currency : String} {q : ℚ} {r : Int64}

theorem money_factor {d : ℕ} (h : currencyDecimals currency = .ok d) :
    (money q currency).factor = 10 ^ d := by
  have hupper : getCurrencyDecimals (upperCase currency) = getCurrencyDecimals currency := by
    unfold getCurrencyDecimals
    rw [upperCase_upperCase]
  show (10 : ℚ) ^ getCurrencyDecimals (upperCase currency) = 10 ^ d
  rw [hupper, getCurrencyDecimals_eq h]

/-- The engine returns the integral part, or zero out of range. -/
theorem toMinorUnits_eq_some (hq : value? amount = some q) (hfits : Fits (2 ^ 96) 28 q)
    (h : toMinorUnits R amount currency = some (.ok r)) :
    r = (toI64 (q * (money q currency).factor)).getD 0 := by
  have hread : held halfAway q = some q := hold_eq halfAway_intCast hfits
  rw [toMinorUnits_eq hq, hread] at h
  cases hd : currencyDecimals currency with
  | error e =>
    simp only [hd] at h
    cases h
  | ok d =>
    simp only [hd] at h
    obtain ⟨z, hz, hr⟩ := Option.map_eq_some_iff.1 h
    rw [hold_mul_pow halfEven_intCast hfits hz] at hr
    rw [money_factor hd, ← Except.ok.inj hr]

/-- **The engine and `Money` agree on an amount exactly if its minor units are in range, are a
number and are not rounded up.** -/
theorem minorUnits_agree_iff (R : RustDecimal) (amount currency : String) (q : ℚ) (r : Int64)
    (hq : value? amount = some q) (hfits : Fits (2 ^ 96) 28 q)
    (h : toMinorUnits R amount currency = some (.ok r)) :
    (r.toInt : ℚ) = (money q currency).toMinorUnits ↔
      SameMinorUnits (q * (money q currency).factor) := by
  rw [toMinorUnits_eq_some hq hfits h, eq_comm]
  set x := q * (money q currency).factor
  show double (halfEven (decimal x)) = _ ↔ _
  by_cases hin : InI64 (truncate x)
  · rw [toI64_of_in hin, Option.getD_some, toInt_ofInt hin, double_eq_iff (nextTo_halfEven hin)]
    constructor
    · rintro ⟨hnumber, hup⟩
      exact ⟨hin, hnumber, hup⟩
    · rintro ⟨-, hnumber, hup⟩
      exact ⟨hnumber, hup⟩
  · have hne := charged_ne_zero hin
    have hzero : (((none : Option Int64).getD 0).toInt : ℚ) = 0 := by
      rw [Option.getD_none, show (0 : Int64).toInt = 0 from rfl, Int.cast_zero]
    rw [toI64_of_not hin, hzero]
    exact ⟨fun heq => absurd heq hne, fun hsame => absurd hsame.inRange hin⟩

end Money

/-- $19.99 -/
theorem minorUnits_agree_iff_price :
    ((1999 : Int64).toInt : ℚ) = (money (1999 / 100) "USD").toMinorUnits ↔
      SameMinorUnits (1999 / 100 * (money (1999 / 100) "USD").factor) :=
  minorUnits_agree_iff .reference "19.99" "USD" (1999 / 100) 1999 rfl
    ⟨1999, 2, by omega, by norm_num, by norm_num⟩ (by decide +kernel)

/-- Half a cent is cut off by one and rounded up by the other; 2 ^ 53 + 1 cents are no number, and
2 ^ 63 cents are returned as zero. -/
theorem halfCent_disagrees :
    (toMinorUnits .reference "22.995" "USD" = some (.ok 2299) ∧
        (money (22995 / 1000) "USD").toMinorUnits = 2300) ∧
      (toMinorUnits .reference "90071992547409.93" "USD" = some (.ok 9007199254740993) ∧
        (money (9007199254740993 / 100) "USD").toMinorUnits = 9007199254740992) ∧
      (toMinorUnits .reference "92233720368547758.08" "USD" = some (.ok 0) ∧
        (money (9223372036854775808 / 100) "USD").toMinorUnits = 9223372036854775808) := by
  decide +kernel

end Intellibiz.Formula
