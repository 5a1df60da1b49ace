import Intellibiz.Rounding
import Intellibiz.Apportion
import Intellibiz.Db.Template

/-!
# Money

Model of `packages/finance/src/money/index.ts` and `precision.ts`.  A decimal of decimal.js is its
value, a rational; every operation rounds its result to 28 significant digits, half to even.

* `decimal` / `double` — the rounding of decimal.js and of the numbers of JavaScript.
* `Money` — `add`, `multiply`, `allocate` and `toMinorUnits`.

Principal results: `decimal_eq` and `double_int` (what is kept), `scaled_eq` (minor units of an
amount of few enough digits).
-/

namespace Intellibiz.Finance

open Rounding

/-! ## Numbers -/

/-- `Decimal.set({ precision: 28, rounding: Decimal.ROUND_HALF_EVEN })` -/
def PRECISION : ℕ := 28

/-- The result of an operation of decimal.js whose exact value is `q`. -/
def decimal (q : ℚ) : ℚ := roundDigits 10 PRECISION q

/-- The number of JavaScript nearest to `q`, within the range of its exponents. -/
def double (q : ℚ) : ℚ := roundDigits 2 53 q

/-- `String(x)`: of the decimals that are read as `x`, the nearest of those with fewest digits. -/
def written (x : ℚ) : ℚ :=
  let read (p : ℕ) : Option ℚ :=
    let unit : ℚ := 10 ^ lastDigit 10 p x
    [roundDigits 10 p x, ⌊x / unit⌋ * unit, (⌊x / unit⌋ + 1) * unit].find? fun d => double d = x
  ((List.range 17).findSome? fun p => read (p + 1)).getD x

/-! ## Currencies -/

def upperCase (s : String) : String := String.ofList (Db.toUpperCase s.toList)

theorem upperChar_upper (c : Char) : (Db.upperChar c).flatMap Db.upperChar = Db.upperChar c := by
  by_cases hdefault : Db.upperChar c = [c.toUpper]
  · by_cases hlower : c.isLower = true
    · -- the upper case of an ASCII letter is an ASCII letter
      have hupper : c.toUpper.isUpper = true := by
        rw [Char.isUpper_toUpper_eq_isAlpha, Char.isAlpha, hlower, Bool.or_true]
      have hascii : Db.upperChar c.toUpper = [c.toUpper.toUpper] := by
        unfold Db.upperChar
        split <;> first | rfl | (rename_i hc; rw [hc] at hupper; cases hupper)
      rw [hdefault, List.flatMap_singleton, hascii, Char.toUpper_toUpper_eq_toUpper]
    · rw [Char.toUpper_eq_of_not_isLower hlower] at hdefault
      rw [hdefault, List.flatMap_singleton, hdefault]
  · unfold Db.upperChar at hdefault ⊢
    split at hdefault <;> first | rfl | exact absurd rfl hdefault

@[simp] theorem upperCase_upperCase (s : String) : upperCase (upperCase s) = upperCase s := by
  unfold upperCase Db.toUpperCase
  rw [String.toList_ofList, List.flatMap_assoc]
  simp only [upperChar_upper]

def ISO4217_DECIMALS : List (String × ℕ) :=
  [("JPY", 0), ("KRW", 0), ("VND", 0), ("ISK", 0), ("CLP", 0), ("GNF", 0), ("UGX", 0), ("RWF", 0),
    ("BIF", 0), ("DJF", 0), ("KMF", 0), ("MGA", 0), ("PYG", 0), ("XAF", 0), ("XOF", 0), ("XPF", 0),
    ("BHD", 3), ("KWD", 3), ("OMR", 3), ("JOD", 3), ("TND", 3), ("LYD", 3), ("IQD", 3)]

def getCurrencyDecimals (currency : String) : ℕ :=
  (ISO4217_DECIMALS.lookup (upperCase currency)).getD 2

inductive FinanceError where
  | currencyMismatch (a b : String)
  | error (text : String)
  deriving DecidableEq

def FinanceError.message : FinanceError → String
  | .currencyMismatch a b => s!"Currency mismatch: cannot operate on {a} and {b}"
  | .error text => text

/-! ## The class -/

structure Money where
  amount : ℚ
  currency : String
  upper : upperCase currency = currency
  deriving DecidableEq

/-- The constructor; the amount is the value of the string it is given. -/
def money (amount : ℚ) (currency : String) : Money :=
  ⟨amount, upperCase currency, upperCase_upperCase currency⟩

/-- `new Decimal(10).pow(decimals)` -/
def Money.factor (m : Money) : ℚ := 10 ^ getCurrencyDecimals m.currency

def Money.add (m other : Money) : Except FinanceError Money :=
  if m.currency = other.currency then .ok (money (decimal (m.amount + other.amount)) m.currency)
  else .error (.currencyMismatch m.currency other.currency)

def Money.multiply (m : Money) (factor : ℚ) : Money :=
  money (decimal (m.amount * factor)) m.currency

/-- `_amount.mul(factor)` -/
def Money.scaled (m : Money) : ℚ := decimal (m.amount * m.factor)

def Money.toMinorUnits (m : Money) : ℚ := double (halfEven m.scaled)

/-- `toFixed(decimals)` -/
def toFixed (decimals : ℕ) (q : ℚ) : ℚ := halfEven (q * 10 ^ decimals) / 10 ^ decimals

/-- `ratios.reduce((a, b) => a + b, 0)` -/
def totalRatio (ratios : List ℕ) : ℚ := ratios.foldl (fun (a : ℚ) (b : ℕ) => double (a + b)) 0

/-- `minorTotal.mul(r).div(totalRatio).toDecimalPlaces(0, Decimal.ROUND_FLOOR)` -/
def allocation (minorTotal : ℤ) (ratios : List ℕ) (r : ℕ) : ℤ :=
  ⌊decimal (decimal (minorTotal * r) / totalRatio ratios)⌋

/-- The remainder goes to the first bucket. -/
def addToFirst (remainder : ℚ) : List ℤ → List ℚ
  | [] => []
  | a :: allocations => decimal (a + remainder) :: allocations.map (↑)

def Money.allocate (m : Money) (ratios : List ℕ) : Except FinanceError (List Money) :=
  if ratios = [] then .error (.error "Money.allocate: ratios array is empty")
  else if totalRatio ratios = 0 then
    .error (.error "Money.allocate: ratios must sum to a positive value")
  else
    let minorTotal := ⌊m.scaled⌋
    let allocations := ratios.map (allocation minorTotal ratios)
    let allocated := allocations.foldl (fun (a : ℚ) (b : ℤ) => decimal (a + b)) 0
    let remainder := decimal (minorTotal - allocated)
    let minors := if 0 < remainder then addToFirst remainder allocations else allocations.map (↑)
    .ok (minors.map fun minor =>
      money (toFixed (getCurrencyDecimals m.currency) (decimal (minor / m.factor))) m.currency)

/-! ## What the roundings keep -/

theorem decimal_eq {q : ℚ} (h : Representable 10 PRECISION q) : decimal q = q :=
  roundDigits_eq (by decide) (by decide) h

theorem decimal_int {n : ℤ} (h : |n| ≤ 10 ^ PRECISION) : decimal n = n := decimal_eq (.int h)

theorem double_int {n : ℤ} (h : |n| ≤ 2 ^ 53) : double n = n :=
  roundDigits_eq (by decide) (by decide) (.int h)

theorem abs_decimal_sub_le (q : ℚ) : |decimal q - q| ≤ |q| * (1 / (2 * 10 ^ 27)) := by
  have herr := abs_roundDigits_sub_le (b := 10) (p := PRECISION) (q := q) (by decide)
  have hpow : (((10 : ℕ) : ℚ) ^ (1 - (PRECISION : ℤ))) = 1 / 10 ^ 27 := by norm_num [PRECISION]
  rw [hpow] at herr
  exact herr.trans_eq (by ring)

/-- Sums of decimals are exact while their parts stay below 28 digits. -/
theorem foldl_decimal {ns : List ℤ} {a : ℤ} (h : |a| + (ns.map abs).sum ≤ 10 ^ PRECISION) :
    ns.foldl (fun (x : ℚ) (n : ℤ) => decimal (x + n)) (a : ℚ) = ((a + ns.sum : ℤ) : ℚ) := by
  induction ns generalizing a with
  | nil => simp
  | cons n ns ih =>
    rw [List.map_cons, List.sum_cons] at h
    have hnonneg : 0 ≤ (ns.map abs).sum := List.sum_nonneg (by simp)
    have htri := abs_add_le a n
    have hsum : decimal ((a : ℚ) + n) = ((a + n : ℤ) : ℚ) := by
      rw [← Int.cast_add]
      apply decimal_int
      omega
    rw [List.foldl_cons, hsum, ih (by omega), List.sum_cons, add_assoc]

/-- Adding a remainder to the first bucket, where the sum is exact. -/
theorem addToFirst_eq {k : ℤ} {ns : List ℤ} (h : (ns.map abs).sum + |k| ≤ 10 ^ PRECISION) :
    addToFirst k ns = (Apportion.addToFirst k ns).map (↑) := by
  cases ns with
  | nil => rfl
  | cons n ns =>
    rw [List.map_cons, List.sum_cons] at h
    have hnonneg : 0 ≤ (ns.map abs).sum := List.sum_nonneg (by simp)
    have htri := abs_add_le n k
    have hsum : decimal ((n : ℚ) + k) = ((n + k : ℤ) : ℚ) := by
      rw [← Int.cast_add]
      apply decimal_int
      omega
    simp only [addToFirst, Apportion.addToFirst, List.map_cons, hsum]

theorem foldl_double {ns : List ℕ} {a : ℕ} (h : a + ns.sum ≤ 2 ^ 53) :
    ns.foldl (fun (x : ℚ) (n : ℕ) => double (x + n)) (a : ℚ) = ((a + ns.sum : ℕ) : ℚ) := by
  induction ns generalizing a with
  | nil => simp
  | cons n ns ih =>
    rw [List.sum_cons] at h
    have hsum : double ((a : ℚ) + n) = ((a + n : ℕ) : ℚ) := by
      have hcast : (a : ℚ) + n = ((a + n : ℤ) : ℚ) := by push_cast; rfl
      rw [hcast, double_int]
      · push_cast; rfl
      · rw [abs_of_nonneg (by positivity)]
        omega
    rw [List.foldl_cons, hsum, ih (by omega), List.sum_cons, Nat.add_assoc]

theorem totalRatio_eq {ratios : List ℕ} (h : ratios.sum ≤ 2 ^ 53) :
    totalRatio ratios = (ratios.sum : ℕ) := by
  have hfold := @foldl_double ratios 0 (by omega)
  rw [Nat.zero_add, Nat.cast_zero] at hfold
  exact hfold

/-- A decimal of few enough digits stays one when it is moved by places. -/
theorem representable_factor {q : ℚ} (h : Representable 10 PRECISION q) (k : ℕ) :
    Representable 10 PRECISION (q * 10 ^ k) := by
  have hscale := h.scale (by decide) k
  rwa [zpow_natCast, Nat.cast_ofNat] at hscale

theorem representable_div {q : ℚ} (h : Representable 10 PRECISION q) (k : ℕ) :
    Representable 10 PRECISION (q / 10 ^ k) := by
  have hscale := h.scale (by decide) (-k)
  rwa [zpow_neg, zpow_natCast, Nat.cast_ofNat, ← div_eq_mul_inv] at hscale

theorem scaled_eq {m : Money} (h : Representable 10 PRECISION m.amount) :
    m.scaled = m.amount * m.factor :=
  decimal_eq (representable_factor h _)

end Intellibiz.Finance
