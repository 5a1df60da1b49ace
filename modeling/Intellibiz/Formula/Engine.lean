import Intellibiz.Finance.Money
import Intellibiz.FixedPoint
import Intellibiz.MachineInt
import Intellibiz.Numeral

/-!
# The formula engine

Model of `crates/formula-engine/src/lib.rs` but for `allocate`.  `rust_decimal` is a parameter
(`RustDecimal`): what it reads, multiplies, divides and prints, where the digits fit and where they
do not.  A result of none is a panic.

* `FormulaError` — the errors of the crate and their messages.
* `currencyDecimals` — the precision table.
* `toMinorUnits`, `fromMinorUnits`, `multiply`, `applyBasisPoints`.

Principal results: `toMinorUnits_eq`, `multiply_eq` and `applyBasisPoints_eq` (the results from the
values of the arguments).
-/

namespace Intellibiz.Formula

open Finance Rounding FixedPoint MachineInt Numeral

inductive FormulaError where
  | invalidDecimal (text : String)
  | divisionByZero
  | invalidAllocationRatios
  | unknownCurrencyPrecision (code : String)
  deriving DecidableEq, Repr

def FormulaError.message : FormulaError → String
  | .invalidDecimal text => s!"invalid decimal string: '{text}'"
  | .divisionByZero => "division by zero"
  | .invalidAllocationRatios => "allocation ratios must sum to a positive value"
  | .unknownCurrencyPrecision code => s!"currency precision for '{code}' is unknown"

/-! ## Currencies -/

def zeroDecimals : List String :=
  ["JPY", "KRW", "VND", "ISK", "CLP", "GNF", "UGX", "RWF", "BIF", "DJF", "KMF", "MGA", "PYG", "XAF",
    "XOF", "XPF"]

def threeDecimals : List String := ["BHD", "KWD", "OMR", "JOD", "TND", "LYD"]

def twoDecimals : List String :=
  ["USD", "EUR", "GBP", "ZAR", "CAD", "AUD", "NZD", "CHF", "SEK", "NOK", "DKK", "MXN", "BRL", "INR",
    "CNY", "HKD", "SGD", "THB", "MYR", "IDR", "PHP", "PKR", "EGP", "NGN", "GHS", "KES", "TZS", "MAD",
    "UAH", "CZK", "PLN", "HUF", "RON", "BGN", "HRK", "RUB", "TRY", "AED", "SAR", "QAR", "ILS", "COP",
    "PEN", "ARS", "TWD"]

def currencyDecimals (currency : String) : Except FormulaError ℕ :=
  let code := upperCase currency
  if code ∈ zeroDecimals then .ok 0
  else if code ∈ threeDecimals then .ok 3
  else if code ∈ twoDecimals then .ok 2
  else .error (.unknownCurrencyPrecision code)

/-- The precisions of the table. -/
theorem currencyDecimals_cases {currency : String} {d : ℕ} (h : currencyDecimals currency = .ok d) :
    d = 0 ∨ d = 2 ∨ d = 3 := by
  simp only [currencyDecimals] at h
  split at h
  · cases h
    exact .inl rfl
  · split at h
    · cases h
      exact .inr (.inr rfl)
    · split at h
      · cases h
        exact .inr (.inl rfl)
      · cases h

theorem currencyDecimals_le {currency : String} {d : ℕ} (h : currencyDecimals currency = .ok d) :
    d ≤ 3 := by
  have hcases := currencyDecimals_cases h
  omega

/-! ## Decimals -/

/-- A `Decimal` has 96 bits and at most 28 decimals. -/
structure Decimal where
  value : ℚ
  fits : Fits (2 ^ 96) 28 value

/-- `q` as far as it fits a `Decimal`. -/
def held (ρ : ℚ → ℤ) (q : ℚ) : Option ℚ := hold ρ (2 ^ 96) 28 q

/-- What the engine uses of `rust_decimal`. -/
structure RustDecimal where
  /-- `Decimal::from_str`; none is an error. -/
  fromStr : String → Option Decimal
  /-- `*`; none is the panic of an overflow. -/
  mul : Decimal → Decimal → Option Decimal
  /-- `/` -/
  div : Decimal → Decimal → Option Decimal
  /-- `format!("{:.prec$}")` -/
  format : ℕ → Decimal → String
  /-- A decimal string is read with the digits that fit, rounded by the first that does not. -/
  fromStr_eq : ∀ {s q}, value? s = some q → (fromStr s).map Decimal.value = held halfAway q
  /-- A product is exact or, where it has too many digits, rounded half to even; it overflows
  where the integral part does not fit. -/
  mul_eq : ∀ a b, (mul a b).map Decimal.value = held halfEven (a.value * b.value)
  /-- A quotient that fits is exact. -/
  div_eq : ∀ a b, b.value ≠ 0 → Fits (2 ^ 96) 28 (a.value / b.value) →
    (div a b).map Decimal.value = some (a.value / b.value)
  /-- A value of at most `p` decimals is printed with `p` decimals. -/
  format_eq : ∀ p (n : ℤ) (d : Decimal), d.value = n / 10 ^ p → format p d = fixed p n

/-- `Decimal::from(i64)` -/
def Decimal.ofI64 (x : Int64) : Decimal where
  value := x.toInt
  fits := Fits.int (by
    obtain ⟨hlow, hhigh⟩ := inI64_toInt x
    rw [abs_lt]
    omega)

/-- `Decimal::from(u32)` -/
def Decimal.ofU32 (x : UInt32) : Decimal where
  value := (x.toNat : ℤ)
  fits := Fits.int (by
    have hlt := x.toNat_lt
    rw [abs_lt]
    omega)

/-- `to_i64`: the integral part, if it is in range. -/
def toI64 (q : ℚ) : Option Int64 :=
  if InI64 (truncate q) then some (Int64.ofInt (truncate q)) else none

inductive RoundingMode where
  | bankers
  | halfUp
  | truncate
  deriving DecidableEq, Repr

/-- `round_dp_with_strategy(0, ..)`: `MidpointNearestEven`, `MidpointAwayFromZero`, `ToZero`. -/
def RoundingMode.round : RoundingMode → ℚ → ℤ
  | .bankers => halfEven
  | .halfUp => halfAway
  | .truncate => Rounding.truncate

/-! ## The functions -/

section Functions

variable (R : RustDecimal)

/-- `10_i64.pow(decimals)` -/
def pow10 (decimals : ℕ) : Int64 := Int64.ofInt (10 ^ decimals)

def toMinorUnits (amount currency : String) : Option (Except FormulaError Int64) :=
  match R.fromStr amount with
  | none => some (.error (.invalidDecimal amount))
  | some d =>
    match currencyDecimals currency with
    | .error e => some (.error e)
    | .ok decimals => do
      let minor ← R.mul d (.ofI64 (pow10 decimals))
      return .ok ((toI64 minor.value).getD 0)

def fromMinorUnits (minor : Int64) (currency : String) : Option (Except FormulaError String) :=
  match currencyDecimals currency with
  | .error e => some (.error e)
  | .ok decimals => do
    let result ← R.div (.ofI64 minor) (.ofI64 (pow10 decimals))
    return .ok (R.format decimals result)

def multiply (minor : Int64) (factor : String) (mode : RoundingMode) :
    Option (Except FormulaError Int64) :=
  match R.fromStr factor with
  | none => some (.error (.invalidDecimal factor))
  | some f => do
    let result ← R.mul (.ofI64 minor) f
    return .ok ((toI64 (mode.round result.value)).getD 0)

def applyBasisPoints (minor : Int64) (basisPoints : UInt32) (mode : RoundingMode) :
    Option (Except FormulaError Int64) := do
  let bpFactor ← R.div (.ofU32 basisPoints) (.ofU32 10000)
  multiply R minor (R.format 4 bpFactor) mode

end Functions

/-! ## Their results -/

section Results

variable {R : RustDecimal} {q : ℚ}

theorem toInt_pow10 {d : ℕ} (h : d ≤ 3) : (pow10 d).toInt = 10 ^ d := by
  unfold pow10
  apply toInt_ofInt
  interval_cases d <;> decide

@[simp] theorem value_ofI64 (x : Int64) : (Decimal.ofI64 x).value = x.toInt := rfl

@[simp] theorem value_ofU32 (x : UInt32) : (Decimal.ofU32 x).value = x.toNat := by
  show ((x.toNat : ℤ) : ℚ) = x.toNat
  exact Int.cast_natCast _

theorem toMinorUnits_eq {amount currency : String} (hq : value? amount = some q) :
    toMinorUnits R amount currency =
      match held halfAway q with
      | none => some (.error (.invalidDecimal amount))
      | some v =>
        match currencyDecimals currency with
        | .error e => some (.error e)
        | .ok d => (held halfEven (v * 10 ^ d)).map fun z => .ok ((toI64 z).getD 0) := by
  simp only [← R.fromStr_eq hq]
  unfold toMinorUnits
  cases R.fromStr amount with
  | none => rfl
  | some v =>
    cases hcurrency : currencyDecimals currency with
    | error e => rfl
    | ok d =>
      have hmul := R.mul_eq v (.ofI64 (pow10 d))
      rw [value_ofI64, toInt_pow10 (currencyDecimals_le hcurrency)] at hmul
      push_cast at hmul
      simp only [Option.map_some, ← hmul]
      cases R.mul v (.ofI64 (pow10 d)) <;> rfl

theorem multiply_eq {minor : Int64} {factor : String} {mode : RoundingMode}
    (hq : value? factor = some q) :
    multiply R minor factor mode =
      match held halfAway q with
      | none => some (.error (.invalidDecimal factor))
      | some f =>
        (held halfEven (minor.toInt * f)).map fun z => .ok ((toI64 (mode.round z)).getD 0) := by
  rw [← R.fromStr_eq hq]
  unfold multiply
  cases R.fromStr factor with
  | none => rfl
  | some f =>
    have hmul := R.mul_eq (.ofI64 minor) f
    rw [value_ofI64] at hmul
    simp only [Option.map_some, ← hmul]
    cases R.mul (.ofI64 minor) f <;> rfl

/-- Basis points need four decimals, and the product fits. -/
theorem applyBasisPoints_eq {minor : Int64} {basisPoints : UInt32} {mode : RoundingMode} :
    applyBasisPoints R minor basisPoints mode =
      some (.ok ((toI64 (mode.round (minor.toInt * basisPoints.toNat / 10000))).getD 0)) := by
  have hbp := basisPoints.toNat_lt
  have hten : (Decimal.ofU32 10000).value = 10000 := by
    rw [value_ofU32, show (10000 : UInt32).toNat = 10000 from rfl]
    norm_num
  have hfits : Fits (2 ^ 96) 28 ((basisPoints.toNat : ℚ) / 10000) :=
    ⟨(basisPoints.toNat : ℤ), 4, by omega, by norm_num, by
      rw [abs_lt]
      omega⟩
  have hdiv := R.div_eq (.ofU32 basisPoints) (.ofU32 10000)
  rw [hten, value_ofU32] at hdiv
  obtain ⟨bpFactor, hfactor, hvalue⟩ := Option.map_eq_some_iff.1 (hdiv (by norm_num) hfits)
  have hformat := R.format_eq 4 basisPoints.toNat bpFactor (by
    rw [hvalue, Int.cast_natCast]
    norm_num)
  have hread := value?_fixed 4 basisPoints.toNat
  rw [Int.cast_natCast, show (10 : ℚ) ^ 4 = 10000 by norm_num] at hread
  have hprod : Fits (2 ^ 96) 28 (minor.toInt * ((basisPoints.toNat : ℚ) / 10000)) := by
    refine ⟨minor.toInt * basisPoints.toNat, 4, by omega, ?_, ?_⟩
    · push_cast
      ring
    · rw [abs_mul, Nat.abs_cast]
      calc |minor.toInt| * (basisPoints.toNat : ℤ) ≤ 2 ^ 63 * 2 ^ 32 := by
            apply mul_le_mul (abs_toInt_le minor) _ (by positivity) (by positivity)
            omega
        _ < _ := by norm_num
  unfold applyBasisPoints
  rw [hfactor]
  show multiply R minor (R.format 4 bpFactor) mode = _
  rw [hformat, multiply_eq hread, held, hold_eq halfAway_intCast hfits]
  simp only [held, hold_eq halfEven_intCast hprod, Option.map_some]
  rw [mul_div_assoc]

end Results

/-! ## A decimal library -/

/-- `q` as far as it fits, as a `Decimal`. -/
def heldDecimal (ρ : ℚ → ℤ) (q : ℚ) : Option Decimal :=
  match h : held ρ q with
  | none => none
  | some z => some ⟨z, fits_of_hold h⟩

theorem map_heldDecimal (ρ : ℚ → ℤ) (q : ℚ) : (heldDecimal ρ q).map Decimal.value = held ρ q := by
  unfold heldDecimal
  split
  · rename_i h
    exact h.symm
  · rename_i z h
    exact h.symm

/-- Operations that behave as those of `rust_decimal` do, to run the engine with. -/
def RustDecimal.reference : RustDecimal where
  fromStr s := (value? s).bind (heldDecimal halfAway)
  mul a b := heldDecimal halfEven (a.value * b.value)
  div a b := if b.value = 0 then none else heldDecimal halfEven (a.value / b.value)
  format p d := fixed p (truncate (d.value * 10 ^ p))
  fromStr_eq := by
    intro s q hq
    rw [hq, Option.bind_some]
    exact map_heldDecimal _ _
  mul_eq a b := map_heldDecimal _ _
  div_eq := by
    intro a b hb hfits
    rw [if_neg hb, map_heldDecimal]
    exact hold_eq halfEven_intCast hfits
  format_eq := by
    intro p n d hd
    rw [hd, div_mul_cancel₀ _ (by positivity), truncate_intCast]

end Intellibiz.Formula
