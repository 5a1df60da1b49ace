import Intellibiz.Finance.Rate
import Intellibiz.Formula.Fallback
import Intellibiz.Formula.RoundTrip

/-!
# Texts of the engine and of its fallback

`formulaToMinorUnits` and `formulaFromMinorUnits` of `packages/core/src/native/bridge.ts` beside
those of `crates/bindings/src/lib.rs`, where a text written by one may be read by the other.

* `Fallback.decimals` — the precisions of the fallback, of four currencies in upper case.
* `jsToFixed` — `Number.prototype.toFixed`.

Principal results: `fromMinorUnits_fallback` (the fallback's text is exact below `2 ^ 51`),
`toMinorUnits_scaled` (what a text of the engine is read as) and `conversions_agree_iff`.
-/

namespace Intellibiz.Formula

open Finance Rounding FixedPoint MachineInt Numeral

/-! ## The two implementations -/

namespace Native

def formulaToMinorUnits (R : RustDecimal) (amount currency : String) :
    Option (Except FormulaError Int64) :=
  toMinorUnits R amount currency

def formulaFromMinorUnits (R : RustDecimal) (minor : Int64) (currency : String) :
    Option (Except FormulaError String) :=
  fromMinorUnits R minor currency

end Native

/-- `x.toFixed(decimals)`, below `10 ^ 21`: of two nearest the larger one. -/
def jsToFixed (decimals : ℕ) (x : ℚ) : String :=
  let n := ⌊|x| * 10 ^ decimals + 1 / 2⌋.toNat
  String.ofList (if x < 0 then '-' :: magnitude decimals n else magnitude decimals n)

namespace Fallback

def decimals (currency : String) : ℕ :=
  if currency = "JPY" ∨ currency = "KRW" then 0
  else if currency = "BHD" ∨ currency = "KWD" then 3
  else 2

/-- `Math.round(parseFloat(amount) * Math.pow(10, decimals))`, of a decimal string. -/
def formulaToMinorUnits (amount currency : String) : Option ℤ :=
  (value? amount).map fun q => mathRound (double (double q * 10 ^ decimals currency))

/-- `(minor / Math.pow(10, decimals)).toFixed(decimals)` -/
def formulaFromMinorUnits (minor : ℤ) (currency : String) : String :=
  jsToFixed (decimals currency) (double (minor / 10 ^ decimals currency))

/-- The four currencies of the fallback have the precision of the table, in upper case. -/
theorem decimals_eq_two {currency : String} {d : ℕ} (h : currencyDecimals currency = .ok d)
    (hne : decimals currency ≠ d) : decimals currency = 2 := by
  unfold decimals at hne ⊢
  split_ifs at hne ⊢ with hzero hthree
  · rcases hzero with rfl | rfl <;> exact absurd (Except.ok.inj h) hne
  · rcases hthree with rfl | rfl <;> exact absurd (Except.ok.inj h) hne
  · rfl

end Fallback

/-! ## What they read and write -/

theorem jsToFixed_of_close {d : ℕ} {x : ℚ} {n : ℤ} (hsign : x < 0 ↔ n < 0)
    (h : |x * 10 ^ d - n| < 1 / 2) : jsToFixed d x = fixed d n := by
  have hdist : |(|x| * 10 ^ d - |(n : ℚ)|)| < 1 / 2 := by
    have hpow : |x| * 10 ^ d = |x * 10 ^ d| := by
      rw [abs_mul, abs_of_pos (by positivity : (0 : ℚ) < 10 ^ d)]
    rw [hpow]
    exact (abs_abs_sub_abs_le _ _).trans_lt h
  obtain ⟨hlow, hhigh⟩ := abs_lt.1 hdist
  have hfloor : ⌊|x| * 10 ^ d + 1 / 2⌋ = |n| := by
    rw [Int.floor_eq_iff]
    push_cast
    constructor <;> linarith
  have hnat : ⌊|x| * 10 ^ d + 1 / 2⌋.toNat = n.natAbs := by
    rw [hfloor, ← Int.natCast_natAbs, Int.toNat_natCast]
  unfold jsToFixed fixed
  simp only [hnat, hsign]

section Conversions

variable {R : RustDecimal} {currency : String} {d : ℕ} {minor : ℤ}

/-- Below `2 ^ 51` the fallback prints its precision exactly. -/
theorem fromMinorUnits_fallback (hsmall : |minor| < 2 ^ 51) :
    Fallback.formulaFromMinorUnits minor currency = fixed (Fallback.decimals currency) minor := by
  set e := Fallback.decimals currency
  have hpow : (0 : ℚ) < 10 ^ e := by positivity
  have hsmall' : |(minor : ℚ)| < 2 ^ 51 := by exact_mod_cast hsmall
  refine jsToFixed_of_close ?_ ?_
  · rw [double_neg_iff, div_lt_iff₀ hpow, zero_mul, Int.cast_lt_zero]
  · have herr := abs_double_sub_le ((minor : ℚ) / 10 ^ e)
    have hscaled := mul_le_mul_of_nonneg_right herr hpow.le
    rw [← abs_of_pos hpow, ← abs_mul, abs_of_pos hpow, sub_mul, div_mul_cancel₀ _ hpow.ne', abs_div,
      abs_of_pos hpow] at hscaled
    calc _ ≤ |(minor : ℚ)| / 10 ^ e / 2 ^ 53 * 10 ^ e := hscaled
      _ = |(minor : ℚ)| / 2 ^ 53 := by field_simp
      _ < 1 / 2 := by
        rw [div_lt_iff₀ (by positivity)]
        linarith

/-- What the fallback reads a text of `p` decimals as. -/
theorem toMinorUnits_fallback (p : ℕ) :
    Fallback.formulaToMinorUnits (fixed p minor) currency =
      some (mathRound (double (double (minor / 10 ^ p) * 10 ^ Fallback.decimals currency))) := by
  unfold Fallback.formulaToMinorUnits
  rw [value?_fixed, Option.map_some]

theorem fallback_reads_own (hsmall : |minor| < 2 ^ 51) :
    Fallback.formulaToMinorUnits (fixed (Fallback.decimals currency) minor) currency =
      some minor := by
  rw [toMinorUnits_fallback, Option.some_inj]
  have herr := @abs_double_mul_sub_le ((minor : ℚ) / 10 ^ Fallback.decimals currency)
    (10 ^ Fallback.decimals currency) (by positivity)
  rw [div_mul_cancel₀ _ (by positivity)] at herr
  have hlast : |(minor : ℚ)| ≤ 2 ^ 51 - 1 := by exact_mod_cast Int.le_sub_one_of_lt hsmall
  apply mathRound_of_close
  linarith

/-- The number `c` times the amount is not rounded to the amount. -/
theorem mathRound_scaled_ne {c : ℚ} (hc : c = 1 / 10 ∨ c = 100) (hne : minor ≠ 0) {x : ℚ}
    (h : |x - c * minor| ≤ |c * minor| * (1 / 2 ^ 52 + 1 / 2 ^ 106)) : mathRound x ≠ minor := by
  intro hround
  unfold mathRound at hround
  obtain ⟨hlow, hhigh⟩ := Int.floor_eq_iff.1 hround
  have hone : (1 : ℚ) ≤ |(minor : ℚ)| := by exact_mod_cast Int.one_le_abs hne
  have hpos : 0 < c := by
    rcases hc with rfl | rfl <;> norm_num
  rw [abs_mul, abs_of_pos hpos] at h
  obtain ⟨hleft, hright⟩ := abs_le.1 h
  -- too small by nine tenths, or too large by far, on either side of zero
  rcases abs_cases (minor : ℚ) with ⟨habs, _⟩ | ⟨habs, _⟩
  · rw [habs] at hone hleft hright
    rcases hc with rfl | rfl <;> linarith
  · rw [habs] at hone hleft hright
    rcases hc with rfl | rfl <;> linarith

theorem mathRound_zero : mathRound 0 = 0 := by
  unfold mathRound
  norm_num

/-- What the engine reads a text of `p` decimals as. -/
theorem toMinorUnits_scaled {minor : Int64} {p : ℕ} (hp : p ≤ 3)
    (h : currencyDecimals currency = .ok d) :
    toMinorUnits R (fixed p minor.toInt) currency =
      some (.ok ((toI64 (minor.toInt / 10 ^ p * 10 ^ d)).getD 0)) := by
  have hd := currencyDecimals_le h
  have hheld : held halfAway ((minor.toInt : ℚ) / 10 ^ p) = some ((minor.toInt : ℚ) / 10 ^ p) :=
    hold_eq halfAway_intCast (fits_minor minor (by omega))
  have hfits : Fits (2 ^ 96) 28 ((minor.toInt : ℚ) / 10 ^ p * 10 ^ d) := by
    refine ⟨minor.toInt * 10 ^ d, p, by omega, ?_, ?_⟩
    · push_cast
      ring
    · rw [abs_mul, abs_of_pos (by positivity : (0 : ℤ) < 10 ^ d)]
      calc |minor.toInt| * 10 ^ d ≤ 2 ^ 63 * 10 ^ 3 :=
            mul_le_mul (abs_toInt_le minor) (pow_le_pow_right₀ (by norm_num) hd) (by positivity)
              (by positivity)
        _ < _ := by norm_num
  have hprod : held halfEven ((minor.toInt : ℚ) / 10 ^ p * 10 ^ d) =
      some ((minor.toInt : ℚ) / 10 ^ p * 10 ^ d) := hold_eq halfEven_intCast hfits
  rw [toMinorUnits_eq (value?_fixed p minor.toInt), hheld, h]
  simp only [hprod, Option.map_some]

/-- The number `c` times the amount is not the amount. -/
theorem toI64_scaled_ne {minor : Int64} {c : ℚ} (hc : c = 10 ∨ c = 1 / 100) (hne : minor ≠ 0) :
    (toI64 (c * minor.toInt)).getD 0 ≠ minor := by
  intro hsame
  unfold toI64 at hsame
  split_ifs at hsame with hin
  · have hint : truncate (c * minor.toInt) = minor.toInt := by
      rw [← toInt_ofInt hin]
      exact congrArg Int64.toInt hsame
    have hzero : minor.toInt ≠ 0 := fun h => hne (Int64.toInt_inj.1 h)
    rcases hc with rfl | rfl
    · rw [show (10 : ℚ) * minor.toInt = ((10 * minor.toInt : ℤ) : ℚ) by push_cast; rfl,
        truncate_intCast] at hint
      omega
    · have hle := abs_truncate_le (1 / 100 * minor.toInt)
      rw [hint, abs_mul, abs_of_pos (by norm_num : (0 : ℚ) < 1 / 100)] at hle
      have hpos : (0 : ℚ) < |(minor.toInt : ℚ)| := abs_pos.2 (by exact_mod_cast hzero)
      linarith
  · exact hne hsame.symm

/-- Where the precisions differ, the currency has none or three decimals and the fallback two. -/
theorem scales_of_ne (h : currencyDecimals currency = .ok d)
    (hne : Fallback.decimals currency ≠ d) :
    Fallback.decimals currency = 2 ∧ (d = 0 ∨ d = 3) := by
  have htwo := Fallback.decimals_eq_two h hne
  have hcases := currencyDecimals_cases h
  omega

/-- The fallback reads the engine's text. -/
theorem fallback_reads_iff (h : currencyDecimals currency = .ok d) (hsmall : |minor| < 2 ^ 51) :
    Fallback.formulaToMinorUnits (fixed d minor) currency = some minor ↔
      Fallback.decimals currency = d ∨ minor = 0 := by
  by_cases hsame : Fallback.decimals currency = d
  · have hown := @fallback_reads_own currency minor hsmall
    rw [hsame] at hown
    simp [hown, hsame]
  obtain ⟨htwo, hd⟩ := scales_of_ne h hsame
  rw [toMinorUnits_fallback, Option.some_inj, htwo]
  by_cases hzero : minor = 0
  · simp [hzero, double, mathRound_zero]
  have herr := @abs_double_mul_sub_le ((minor : ℚ) / 10 ^ d) (10 ^ 2) (by positivity)
  have hne : mathRound (double (double (minor / 10 ^ d) * 10 ^ 2)) ≠ minor := by
    rcases hd with rfl | rfl
    · refine mathRound_scaled_ne (.inr rfl) hzero ?_
      rw [show (100 : ℚ) * minor = minor / 10 ^ 0 * 10 ^ 2 by ring]
      exact herr
    · refine mathRound_scaled_ne (.inl rfl) hzero ?_
      rw [show (1 / 10 : ℚ) * minor = minor / 10 ^ 3 * 10 ^ 2 by ring]
      exact herr
  simp [hne, hzero, htwo ▸ hsame]

/-- The engine reads the fallback's text. -/
theorem engine_reads_iff {minor : Int64} (h : currencyDecimals currency = .ok d) :
    toMinorUnits R (fixed (Fallback.decimals currency) minor.toInt) currency = some (.ok minor) ↔
      Fallback.decimals currency = d ∨ minor = 0 := by
  by_cases hsame : Fallback.decimals currency = d
  · rw [hsame, toMinorUnits_fixed minor h]
    simp
  obtain ⟨htwo, hd⟩ := scales_of_ne h hsame
  rw [toMinorUnits_scaled (by omega) h, htwo]
  simp only [Option.some_inj, Except.ok.injEq]
  by_cases hzero : minor = 0
  · subst hzero
    have htext : ((0 : Int64).toInt : ℚ) / 10 ^ 2 * 10 ^ d = ((0 : Int64).toInt : ℚ) := by simp
    rw [htext, toI64_toInt]
    simp
  have hne : (toI64 ((minor.toInt : ℚ) / 10 ^ 2 * 10 ^ d)).getD 0 ≠ minor := by
    rcases hd with rfl | rfl
    · rw [show (minor.toInt : ℚ) / 10 ^ 2 * 10 ^ 0 = 1 / 100 * minor.toInt by ring]
      exact toI64_scaled_ne (.inr rfl) hzero
    · rw [show (minor.toInt : ℚ) / 10 ^ 2 * 10 ^ 3 = 10 * minor.toInt by ring]
      exact toI64_scaled_ne (.inl rfl) hzero
  simp [hne, hzero, htwo ▸ hsame]

end Conversions

/-- **Texts exchanged by engine and fallback.**  Of a currency the engine knows, below `2 ^ 51`
minor units, each reads its own texts back; the two write the same text exactly where the fallback
has the precision of the currency, and only there, but for zero, does one read what the other has
written. -/
theorem conversions_agree_iff (R : RustDecimal) (currency : String) (d : ℕ) (minor : Int64)
    (h : currencyDecimals currency = .ok d) (hsmall : |minor.toInt| < 2 ^ 51) :
    ∃ text, Native.formulaFromMinorUnits R minor currency = some (.ok text) ∧
      Native.formulaToMinorUnits R text currency = some (.ok minor) ∧
      Fallback.formulaToMinorUnits (Fallback.formulaFromMinorUnits minor.toInt currency) currency =
        some minor.toInt ∧
      (Fallback.formulaFromMinorUnits minor.toInt currency = text ↔
        Fallback.decimals currency = d) ∧
      (Fallback.formulaToMinorUnits text currency = some minor.toInt ↔
        Fallback.decimals currency = d ∨ minor = 0) ∧
      (Native.formulaToMinorUnits R (Fallback.formulaFromMinorUnits minor.toInt currency) currency =
          some (.ok minor) ↔
        Fallback.decimals currency = d ∨ minor = 0) := by
  have hzero : minor.toInt = 0 ↔ minor = 0 := Int64.toInt_inj (y := 0)
  refine ⟨fixed d minor.toInt, fromMinorUnits_eq minor h, toMinorUnits_fixed minor h,
    ?_, ?_, ?_, ?_⟩
  · rw [fromMinorUnits_fallback hsmall]
    exact fallback_reads_own hsmall
  · rw [fromMinorUnits_fallback hsmall]
    constructor
    · intro htext
      rw [← fractionDigits_fixed (Fallback.decimals currency) minor.toInt, htext,
        fractionDigits_fixed]
    · intro hsame
      rw [hsame]
  · rw [fallback_reads_iff h hsmall, hzero]
  · rw [fromMinorUnits_fallback hsmall]
    exact engine_reads_iff h

/-- A thousand dong: the fallback prints ten, with the digits of a cent. -/
theorem conversions_agree_iff_dong :
    ∃ text, Native.formulaFromMinorUnits .reference 1000 "VND" = some (.ok text) ∧
      Native.formulaToMinorUnits .reference text "VND" = some (.ok 1000) ∧
      Fallback.formulaToMinorUnits
          (Fallback.formulaFromMinorUnits (1000 : Int64).toInt "VND") "VND" =
        some (1000 : Int64).toInt ∧
      (Fallback.formulaFromMinorUnits (1000 : Int64).toInt "VND" = text ↔
        Fallback.decimals "VND" = 0) ∧
      (Fallback.formulaToMinorUnits text "VND" = some (1000 : Int64).toInt ↔
        Fallback.decimals "VND" = 0 ∨ (1000 : Int64) = 0) ∧
      (Native.formulaToMinorUnits .reference
          (Fallback.formulaFromMinorUnits (1000 : Int64).toInt "VND") "VND" = some (.ok 1000) ↔
        Fallback.decimals "VND" = 0 ∨ (1000 : Int64) = 0) :=
  conversions_agree_iff .reference "VND" 0 1000 rfl (by decide)

example : Fallback.formulaFromMinorUnits 1000 "VND" = "10.00" := by decide +kernel

end Intellibiz.Formula
