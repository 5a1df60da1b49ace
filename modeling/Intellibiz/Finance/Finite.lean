import Intellibiz.Extended
import Intellibiz.Machine
import Intellibiz.Numeral
import Intellibiz.Finance.Written

/-!
# Amounts that are not finite

The constructor of `Money` refuses numbers that are not finite.  A text goes to decimal.js as it is,
and so does a factor; results go back through the constructor as texts, which are read as what they
were.  Here the amount of a `Money` is any value of decimal.js.

* `decimals`, `numbers` — the results of decimal.js and of JavaScript, with their exponents.
* `DecimalParser` — what `new Decimal(text)` reads.
* `AnyMoney` — the class; `purse` — the values made by a run of calls.
* `Regular` — a call that reads nothing but finite values and does not overflow.

Principal results: `regular_iff` (but for allocations, this is exact), `allocate_finite`,
`amounts_finite`, and `any_add` and `any_multiply` (the operations on finite amounts).
-/

namespace Intellibiz.Finance

open Rounding Numeral Extended

/-! ## Values -/

def maxE : ℤ := 9000000000000000

def minE : ℤ := -9000000000000000

/-- Below the least exponent a value becomes zero. -/
def flush (q : ℚ) : ℚ := if q ≠ 0 ∧ Int.log 10 |q| < minE then 0 else q

/-- The values of decimal.js that are read from a text. -/
def texts : Format where
  round := flush
  overflows q := maxE < Int.log 10 |q|

/-- The results of decimal.js. -/
def decimals : Format where
  round q := flush (decimal q)
  overflows q := maxE < Int.log 10 |q|

/-- The results of JavaScript. -/
def numbers : Format where
  round := double
  overflows q := 2 ^ 1024 ≤ |q|

/-- `new Decimal(text)` -/
structure DecimalParser where
  /-- None is an error. -/
  parse : String → Option Extended
  parse_value : ∀ {s q}, value? s = some q → parse s = some (texts.result q)
  parse_nan : parse "NaN" = some .nan
  parse_infinity : parse "Infinity" = some (.infinity false)
  parse_negInfinity : parse "-Infinity" = some (.infinity true)

/-- `string | number` -/
inductive Amount where
  | text (s : String)
  | number (x : Extended)
  deriving DecidableEq, Repr

section Functions

variable (P : DecimalParser)

/-- `new Decimal(String(amount))` -/
def toDecimal : Amount → Except FinanceError Extended
  | .text s =>
    match P.parse s with
    | none => .error (.error s!"[DecimalError] Invalid argument: {s}")
    | some v => .ok v
  | .number x => .ok (x.map written)

@[ext]
structure AnyMoney where
  amount : Extended
  currency : String
  upper : upperCase currency = currency

instance : DecidableEq AnyMoney := fun _ _ => decidable_of_iff _ AnyMoney.ext_iff.symm

def anyMoney (amount : Extended) (currency : String) : AnyMoney :=
  ⟨amount, upperCase currency, upperCase_upperCase currency⟩

def construct (amount : Amount) (currency : String) : Except FinanceError AnyMoney :=
  match amount with
  | .number .nan => .error (.error "Money: invalid amount 'NaN'")
  | .number (.infinity false) => .error (.error "Money: invalid amount 'Infinity'")
  | .number (.infinity true) => .error (.error "Money: invalid amount '-Infinity'")
  | amount => (toDecimal P amount).map (anyMoney · currency)

namespace AnyMoney

def add (m other : AnyMoney) : Except FinanceError AnyMoney :=
  if m.currency = other.currency then
    .ok (anyMoney (decimals.add m.amount other.amount) m.currency)
  else .error (.currencyMismatch m.currency other.currency)

def subtract (m other : AnyMoney) : Except FinanceError AnyMoney :=
  if m.currency = other.currency then
    .ok (anyMoney (decimals.sub m.amount other.amount) m.currency)
  else .error (.currencyMismatch m.currency other.currency)

def multiply (m : AnyMoney) (factor : Amount) : Except FinanceError AnyMoney :=
  (toDecimal P factor).map fun f => anyMoney (decimals.mul m.amount f) m.currency

/-- `ratios.reduce((a, b) => a + b, 0)` -/
def totalRatio (ratios : List Extended) : Extended := ratios.foldl numbers.add (.finite 0)

/-- `toDecimalPlaces(0, Decimal.ROUND_FLOOR)` -/
def floor (v : Extended) : Extended := v.map fun q => ⌊q⌋

/-- The remainder goes to the first bucket. -/
def addRemainder (remainder : Extended) : List Extended → List Extended
  | [] => []
  | first :: rest => decimals.add first remainder :: rest

def allocate (m : AnyMoney) (ratios : List Extended) : Except FinanceError (List AnyMoney) :=
  if ratios = [] then .error (.error "Money.allocate: ratios array is empty")
  else if totalRatio ratios = .finite 0 then
    .error (.error "Money.allocate: ratios must sum to a positive value")
  else
    let places := getCurrencyDecimals m.currency
    let factor := .finite (10 ^ places)
    let minorTotal := floor (decimals.mul m.amount factor)
    let total := (totalRatio ratios).map written
    let allocations := ratios.map fun r =>
      floor (decimals.div (decimals.mul minorTotal (r.map written)) total)
    let remainder := decimals.sub minorTotal (allocations.foldl decimals.add (.finite 0))
    let minors :=
      if remainder.isPositive then addRemainder remainder allocations else allocations
    .ok (minors.map fun minor =>
      anyMoney ((decimals.div minor factor).map (toFixed places)) m.currency)

end AnyMoney

/-! ## Runs -/

inductive MoneyEvent where
  | construct (amount : Amount) (currency : String)
  | add (i j : ℕ)
  | subtract (i j : ℕ)
  | multiply (i : ℕ) (factor : Amount)
  | allocate (i : ℕ) (ratios : List Extended)

/-- What a call returns; none is a call on a value that was not made. -/
def outcome (pool : List AnyMoney) : MoneyEvent → Option (Except FinanceError (List AnyMoney))
  | .construct amount currency => some ((construct P amount currency).map ([·]))
  | .add i j => do
    let m ← pool[i]?
    let other ← pool[j]?
    return (m.add other).map ([·])
  | .subtract i j => do
    let m ← pool[i]?
    let other ← pool[j]?
    return (m.subtract other).map ([·])
  | .multiply i factor => do
    let m ← pool[i]?
    return (m.multiply P factor).map ([·])
  | .allocate i ratios => do
    let m ← pool[i]?
    return m.allocate ratios

/-- The values made so far; a call that throws makes none. -/
def purse : Machine (List AnyMoney) MoneyEvent where
  init := []
  step pool e := (outcome P pool e).map fun
    | .ok made => pool ++ made
    | .error _ => pool

end Functions

/-! ## Calls without overflow -/

section Regular

def minorTotal (a : ℚ) (places : ℕ) : ℚ := ⌊decimals.round (a * 10 ^ places)⌋

def quota (a : ℚ) (places : ℕ) (total x : ℚ) : ℚ :=
  ⌊decimals.round (decimals.round (minorTotal a places * written x) / written total)⌋

/-- No operation of an allocation of `a` by the numbers `xs` leaves the range of exponents. -/
structure AllocationFits (a : ℚ) (places : ℕ) (xs : List ℚ) : Prop where
  total : numbers.SumFits 0 xs
  minor : decimals.Fits (a * 10 ^ places)
  products : ∀ x ∈ xs, decimals.Fits (minorTotal a places * written x)
  quotients : ∀ x ∈ xs, decimals.Fits
    (decimals.round (minorTotal a places * written x) / written (numbers.sum 0 xs))
  allocated : decimals.SumFits 0 (xs.map (quota a places (numbers.sum 0 xs)))
  remainder : decimals.Fits (minorTotal a places -
    decimals.sum 0 (xs.map (quota a places (numbers.sum 0 xs))))
  first : ∀ x ∈ xs.head?, decimals.Fits (quota a places (numbers.sum 0 xs) x +
    decimals.round (minorTotal a places -
      decimals.sum 0 (xs.map (quota a places (numbers.sum 0 xs)))))

/-- What the call reads as a decimal is finite, and no result overflows. -/
def Regular (P : DecimalParser) (pool : List AnyMoney) : MoneyEvent → Prop
  | .construct (.text s) _ => ∀ v, P.parse s = some v → v.IsFinite
  | .construct (.number _) _ => True
  | .add i j => ∀ m other a b, pool[i]? = some m → pool[j]? = some other →
    m.amount = .finite a → other.amount = .finite b → m.currency = other.currency →
    decimals.Fits (a + b)
  | .subtract i j => ∀ m other a b, pool[i]? = some m → pool[j]? = some other →
    m.amount = .finite a → other.amount = .finite b → m.currency = other.currency →
    decimals.Fits (a - b)
  | .multiply i factor => ∀ m a v, pool[i]? = some m → m.amount = .finite a →
    toDecimal P factor = .ok v → ∃ f, v = .finite f ∧ decimals.Fits (a * f)
  | .allocate i ratios => ∀ m a, pool[i]? = some m → m.amount = .finite a → ratios ≠ [] →
    AnyMoney.totalRatio ratios ≠ .finite 0 →
    ∃ xs, ratios = xs.map .finite ∧ AllocationFits a (getCurrencyDecimals m.currency) xs

end Regular

/-! ## Results -/

section Results

variable {y z : ℚ}

/-- A result of decimal.js. -/
structure Bounded (y : ℚ) : Prop where
  digits : Representable 10 PRECISION y
  exponent : Int.log 10 |y| ≤ maxE

theorem Bounded.zero : Bounded 0 :=
  ⟨⟨0, 0, by norm_num, by norm_num⟩, by rw [abs_zero, Int.log_zero_right]; decide⟩

theorem flush_cases (q : ℚ) : flush q = q ∨ flush q = 0 := by
  unfold flush
  split
  · exact .inr rfl
  · exact .inl rfl

theorem bounded_round (h : decimals.Fits z) : Bounded (decimals.round z) := by
  have hexponent : Int.log 10 |decimals.round z| ≤ maxE := by
    unfold Format.Fits at h
    simpa [decimals] using h
  refine ⟨?_, hexponent⟩
  rcases flush_cases (decimal z) with hround | hround
  · show Representable 10 PRECISION (flush (decimal z))
    rw [hround]
    exact representable_roundDigits (by decide) z
  · show Representable 10 PRECISION (flush (decimal z))
    rw [hround]
    exact Bounded.zero.digits

theorem Bounded.floor (h : Bounded y) : Bounded (⌊y⌋ : ℚ) := by
  obtain ⟨⟨n, e, hy, hn⟩, hexponent⟩ := h
  rcases le_or_gt 0 e with he | he
  · -- an integer
    obtain ⟨k, rfl⟩ := Int.eq_ofNat_of_zero_le he
    have hint : y = ((n * 10 ^ k : ℤ) : ℚ) := by
      rw [hy, zpow_natCast]
      push_cast
      rfl
    have hfloor : (⌊y⌋ : ℚ) = y := by rw [hint, Int.floor_intCast]
    rw [hfloor]
    exact ⟨⟨n, k, hy, hn⟩, hexponent⟩
  · have hpow : (((10 : ℕ) : ℚ) ^ e) ≤ 1 := zpow_le_one_of_nonpos₀ (by norm_num) he.le
    have hsize : |y| ≤ ((10 ^ PRECISION : ℤ) : ℚ) := by
      have hpos : (0 : ℚ) < ((10 : ℕ) : ℚ) ^ e := zpow_pos (by norm_num) e
      have hcast : |(n : ℚ)| ≤ ((10 ^ PRECISION : ℤ) : ℚ) := by exact_mod_cast hn
      rw [hy, abs_mul, abs_of_pos hpos]
      exact (mul_le_of_le_one_right (abs_nonneg _) hpow).trans hcast
    obtain ⟨hlow, hhigh⟩ := abs_le.1 hsize
    have hfloor : |⌊y⌋| ≤ 10 ^ PRECISION := by
      rw [abs_le]
      constructor
      · apply Int.le_floor.2
        push_cast at hlow ⊢
        exact hlow
      · exact_mod_cast (Int.floor_le y).trans hhigh
    refine ⟨.int hfloor, ?_⟩
    by_cases hzero : ⌊y⌋ = 0
    · rw [hzero]
      exact Bounded.zero.exponent
    · have hpos : (0 : ℚ) < |(⌊y⌋ : ℚ)| := abs_pos.2 (by exact_mod_cast hzero)
      have hlt : |(⌊y⌋ : ℚ)| < ((10 : ℕ) : ℚ) ^ (29 : ℤ) := by
        have hcast : |(⌊y⌋ : ℚ)| ≤ 10 ^ PRECISION := by exact_mod_cast hfloor
        refine hcast.trans_lt ?_
        norm_num [PRECISION]
      have hlog := (Int.lt_zpow_iff_log_lt (by decide) hpos).1 hlt
      unfold maxE
      omega

/-- Fewer places do not overflow. -/
theorem Bounded.fits_div (h : Bounded y) (places : ℕ) : decimals.Fits (y / 10 ^ places) := by
  have hexact : decimal (y / 10 ^ places) = y / 10 ^ places :=
    decimal_eq (representable_div h.digits places)
  have hround : decimals.round (y / 10 ^ places) = flush (y / 10 ^ places) := by
    show flush (decimal (y / 10 ^ places)) = _
    rw [hexact]
  have hlog : Int.log 10 |flush (y / 10 ^ places)| ≤ maxE := by
    rcases flush_cases (y / 10 ^ places) with hflush | hflush
    · rw [hflush]
      by_cases hzero : y = 0
      · rw [hzero, zero_div]
        exact Bounded.zero.exponent
      · have hone : (1 : ℚ) ≤ 10 ^ places := one_le_pow₀ (by norm_num)
        have hpos : 0 < |y / 10 ^ places| := abs_pos.2 (div_ne_zero hzero (by positivity))
        have hle : |y / 10 ^ places| ≤ |y| := by
          rw [abs_div, abs_of_pos (show (0 : ℚ) < 10 ^ places by positivity)]
          exact div_le_self (abs_nonneg y) hone
        exact (Int.log_mono_right hpos hle).trans h.exponent
    · rw [hflush]
      exact Bounded.zero.exponent
  unfold Format.Fits
  rw [hround]
  simpa [decimals] using hlog

end Results

/-! ## Allocations -/

section Allocate

variable {m : AnyMoney} {a : ℚ} {xs : List ℚ}

/-- With the remainder or without it, the shares in minor units are finite. -/
theorem bounded_minors {qs : List ℚ} {k : ℚ} (hqs : ∀ q ∈ qs, Bounded q)
    (hfirst : ∀ q ∈ qs.head?, decimals.Fits (q + k)) :
    ∀ v ∈ (if (Extended.finite k).isPositive then
        AnyMoney.addRemainder (.finite k) (qs.map .finite) else qs.map .finite),
      ∃ y, v = .finite y ∧ Bounded y := by
  have hfinite : ∀ v ∈ qs.map Extended.finite, ∃ y, v = .finite y ∧ Bounded y := by
    intro v hv
    obtain ⟨q, hq, rfl⟩ := List.mem_map.1 hv
    exact ⟨q, rfl, hqs q hq⟩
  intro v hv
  split at hv
  · cases qs with
    | nil => cases hv
    | cons q qs =>
      have hfits := hfirst q rfl
      rw [List.map_cons, AnyMoney.addRemainder, Format.add_finite hfits] at hv
      rcases List.mem_cons.1 hv with rfl | hv
      · exact ⟨_, rfl, bounded_round hfits⟩
      · exact hfinite v (List.mem_cons_of_mem _ hv)
  · exact hfinite v hv

/-- **Without overflow, an allocation of a finite amount is finite.** -/
theorem allocate_finite (hm : m.amount = .finite a) (hne : xs ≠ [])
    (htotal : AnyMoney.totalRatio (xs.map .finite) ≠ .finite 0)
    (h : AllocationFits a (getCurrencyDecimals m.currency) xs) :
    ∃ parts, m.allocate (xs.map .finite) = .ok parts ∧ ∀ part ∈ parts, part.amount.IsFinite := by
  set places := getCurrencyDecimals m.currency with hplaces
  have hsum : AnyMoney.totalRatio (xs.map .finite) = .finite (numbers.sum 0 xs) :=
    Format.foldl_add h.total
  rw [hsum] at htotal
  have hR : written (numbers.sum 0 xs) ≠ 0 := written_ne_zero fun hzero => htotal (by rw [hzero])
  have hminor : AnyMoney.floor (decimals.mul m.amount (.finite (10 ^ places))) =
      .finite (minorTotal a places) := by
    rw [hm, Format.mul_finite h.minor]
    rfl
  set qs := xs.map (quota a places (numbers.sum 0 xs)) with hqs
  set k := decimals.round (minorTotal a places - decimals.sum 0 qs) with hk
  have hquotas : (xs.map Extended.finite).map (fun r => AnyMoney.floor (decimals.div
      (decimals.mul (.finite (minorTotal a places)) (r.map written))
      (.finite (written (numbers.sum 0 xs))))) =
      qs.map .finite := by
    rw [hqs, List.map_map, List.map_map]
    refine List.map_congr_left fun x hx => ?_
    rw [Function.comp_apply, map_finite, Format.mul_finite (h.products x hx),
      Format.div_finite hR (h.quotients x hx)]
    rfl
  have hqsBounded : ∀ q ∈ qs, Bounded q := by
    intro q hq
    obtain ⟨x, hx, rfl⟩ := List.mem_map.1 hq
    exact (bounded_round (h.quotients x hx)).floor
  have hfirst : ∀ q ∈ qs.head?, decimals.Fits (q + k) := by
    rw [hqs, List.head?_map]
    intro q hq
    obtain ⟨x, hx, rfl⟩ := Option.map_eq_some_iff.1 hq
    exact h.first x hx
  have hminors := bounded_minors hqsBounded hfirst
  have hallocated : (qs.map Extended.finite).foldl decimals.add (.finite 0) =
      .finite (decimals.sum 0 qs) := Format.foldl_add h.allocated
  have hremainder : decimals.sub (.finite (minorTotal a places)) (.finite (decimals.sum 0 qs)) =
      .finite k := Format.sub_finite h.remainder
  have hne' : xs.map Extended.finite ≠ [] := by simpa using hne
  have hfactor : (10 : ℚ) ^ places ≠ 0 := by positivity
  unfold AnyMoney.allocate
  rw [if_neg hne', if_neg (by rwa [hsum])]
  simp only [← hplaces, hsum, map_finite, hminor, hquotas, hallocated, hremainder]
  refine ⟨_, rfl, fun part hpart => ?_⟩
  obtain ⟨v, hv, rfl⟩ := List.mem_map.1 hpart
  obtain ⟨y, rfl, hy⟩ := hminors v hv
  rw [Format.div_finite hfactor (hy.fits_div places)]
  exact ⟨_, rfl⟩

end Allocate

/-! ## Runs of calls -/

section Runs

variable {P : DecimalParser} {pool : List AnyMoney} {e : MoneyEvent}

def AllFinite (pool : List AnyMoney) : Prop := ∀ m ∈ pool, m.amount.IsFinite

/-- Whatever the call makes is finite. -/
def MakesFinite (P : DecimalParser) (pool : List AnyMoney) (e : MoneyEvent) : Prop :=
  ∀ made, outcome P pool e = some (.ok made) → AllFinite made

/-- A call that makes one value. -/
theorem makesFinite_one {r : Except FinanceError AnyMoney}
    (h : outcome P pool e = some (r.map ([·]))) :
    MakesFinite P pool e ↔ ∀ m, r = .ok m → m.amount.IsFinite := by
  unfold MakesFinite
  rw [h]
  cases r with
  | error e => simp [Except.map]
  | ok m => simp [Except.map, AllFinite]

theorem makesFinite_none (h : outcome P pool e = none) : MakesFinite P pool e := by
  intro made hmade
  rw [h] at hmade
  cases hmade

theorem regular_construct {amount : Amount} {currency : String} :
    Regular P pool (.construct amount currency) ↔
      MakesFinite P pool (.construct amount currency) := by
  rw [makesFinite_one rfl]
  cases amount with
  | text s =>
    show (∀ v, P.parse s = some v → v.IsFinite) ↔
      ∀ m, (toDecimal P (.text s)).map (anyMoney · currency) = .ok m → m.amount.IsFinite
    cases hparse : P.parse s with
    | none => simp [toDecimal, hparse, Except.map]
    | some v => simp [toDecimal, hparse, Except.map, anyMoney]
  | number x =>
    cases x with
    | finite q =>
      show True ↔ ∀ m, Except.ok (anyMoney (.finite (written q)) currency) = Except.ok m → _
      simp [anyMoney]
    | infinity negative => cases negative <;> simp [Regular, construct]
    | nan => simp [Regular, construct]

/-- A call on two values of the pool; the condition `Q` is about two amounts of one currency. -/
theorem regular_pair {i j : ℕ} {op : AnyMoney → AnyMoney → Except FinanceError AnyMoney}
    {Q : ℚ → ℚ → Prop} (hpool : AllFinite pool)
    (hregular : Regular P pool e = ∀ m other a b, pool[i]? = some m → pool[j]? = some other →
      m.amount = .finite a → other.amount = .finite b → m.currency = other.currency → Q a b)
    (houtcome : outcome P pool e = (do
      let m ← pool[i]?
      let other ← pool[j]?
      return (op m other).map ([·])))
    (hop : ∀ m other a b, m.amount = .finite a → other.amount = .finite b →
      ((m.currency = other.currency → Q a b) ↔
        ∀ made, op m other = .ok made → made.amount.IsFinite)) :
    Regular P pool e ↔ MakesFinite P pool e := by
  rw [hregular]
  cases hi : pool[i]? with
  | none =>
    rw [hi] at houtcome
    exact iff_of_true (fun m other a b hm => nomatch hm) (makesFinite_none houtcome)
  | some m =>
    cases hj : pool[j]? with
    | none =>
      rw [hi, hj] at houtcome
      exact iff_of_true (fun m other a b hm hother => nomatch hother) (makesFinite_none houtcome)
    | some other =>
      rw [hi, hj] at houtcome
      rw [makesFinite_one houtcome]
      obtain ⟨a, ha⟩ := hpool m (List.mem_of_getElem? hi)
      obtain ⟨b, hb⟩ := hpool other (List.mem_of_getElem? hj)
      rw [← hop m other a b ha hb]
      constructor
      · intro h
        exact h m other a b rfl rfl ha hb
      · intro h m' other' a' b' hm hother ha' hb'
        cases hm
        cases hother
        cases ha.symm.trans ha'
        cases hb.symm.trans hb'
        exact h

theorem regular_add {i j : ℕ} (hpool : AllFinite pool) :
    Regular P pool (.add i j) ↔ MakesFinite P pool (.add i j) := by
  refine @regular_pair P pool _ i j AnyMoney.add _ hpool rfl rfl fun m other a b ha hb => ?_
  by_cases hsame : m.currency = other.currency
  · simp [AnyMoney.add, ha, hb, hsame, anyMoney, Format.add, Format.result_isFinite]
  · simp [AnyMoney.add, hsame]

theorem regular_subtract {i j : ℕ} (hpool : AllFinite pool) :
    Regular P pool (.subtract i j) ↔ MakesFinite P pool (.subtract i j) := by
  refine @regular_pair P pool _ i j AnyMoney.subtract _ hpool rfl rfl fun m other a b ha hb => ?_
  by_cases hsame : m.currency = other.currency
  · simp [AnyMoney.subtract, ha, hb, hsame, anyMoney, Format.sub, Extended.neg, Format.add,
      Format.result_isFinite, sub_eq_add_neg]
  · simp [AnyMoney.subtract, hsame]

theorem regular_multiply {i : ℕ} {factor : Amount} (hpool : AllFinite pool) :
    Regular P pool (.multiply i factor) ↔ MakesFinite P pool (.multiply i factor) := by
  cases hi : pool[i]? with
  | none => simp [Regular, makesFinite_none, outcome, hi]
  | some m =>
    obtain ⟨a, ha⟩ := hpool m (List.mem_of_getElem? hi)
    have houtcome : outcome P pool (.multiply i factor) =
        some ((m.multiply P factor).map ([·])) := by simp [outcome, hi]
    rw [makesFinite_one houtcome]
    cases hread : toDecimal P factor with
    | error e => simp [Regular, AnyMoney.multiply, hread, Except.map]
    | ok v =>
      have hmakes : (∀ made, m.multiply P factor = .ok made → made.amount.IsFinite) ↔
          (decimals.mul (.finite a) v).IsFinite := by
        simp [AnyMoney.multiply, hread, Except.map, anyMoney, ha]
      rw [hmakes]
      constructor
      · intro h
        obtain ⟨f, rfl, hfits⟩ := h m a v hi ha hread
        exact Format.result_isFinite.2 hfits
      · intro h m' a' v' hi' ha' hread'
        rw [hi] at hi'
        cases hi'
        rw [ha] at ha'
        rw [hread] at hread'
        cases ha'
        cases hread'
        -- a factor that is not finite makes nothing finite
        by_contra hnone
        by_cases hv : v.IsFinite
        · obtain ⟨f, rfl⟩ := hv
          exact hnone ⟨f, rfl, Format.result_isFinite.1 h⟩
        · exact Format.mul_not_finite hv h

/-- **But for allocations, the condition is exact.** -/
theorem regular_iff (hpool : AllFinite pool) (he : ∀ i ratios, e ≠ .allocate i ratios) :
    Regular P pool e ↔ MakesFinite P pool e := by
  cases e with
  | construct amount currency => exact regular_construct
  | add i j => exact regular_add hpool
  | subtract i j => exact regular_subtract hpool
  | multiply i factor => exact regular_multiply hpool
  | allocate i ratios => exact absurd rfl (he i ratios)

theorem makesFinite_of_regular (hpool : AllFinite pool) (h : Regular P pool e) :
    MakesFinite P pool e := by
  by_cases he : ∃ i ratios, e = .allocate i ratios
  · obtain ⟨i, ratios, rfl⟩ := he
    intro made hmade
    obtain ⟨m, hm, hallocate⟩ := Option.bind_eq_some_iff.1 hmade
    obtain ⟨a, ha⟩ := hpool m (List.mem_of_getElem? hm)
    have hallocate' : m.allocate ratios = .ok made := Option.some.inj hallocate
    have hne : ratios ≠ [] := by
      rintro rfl
      cases hallocate'
    have htotal : AnyMoney.totalRatio ratios ≠ .finite 0 := by
      intro hzero
      rw [AnyMoney.allocate, if_neg hne, if_pos hzero] at hallocate'
      cases hallocate'
    obtain ⟨xs, rfl, hfits⟩ := h m a hm ha hne htotal
    obtain ⟨parts, hparts, hfinite⟩ := allocate_finite ha (by simpa using hne) htotal hfits
    rw [hparts] at hallocate'
    cases hallocate'
    exact hfinite
  · rw [not_exists] at he
    exact (regular_iff hpool fun i ratios heq => he i ⟨ratios, heq⟩).1 h

end Runs

/-- **In a run of regular calls, every amount is finite.** -/
theorem amounts_finite (P : DecimalParser) (es : List MoneyEvent) (pool : List AnyMoney)
    (hregular : (purse P).Along (Regular P) es) (hrun : (purse P).run es = some pool) :
    ∀ m ∈ pool, m.amount.IsFinite := by
  refine Machine.run_induction_along (P := fun _ pool => AllFinite pool) ?_ ?_ hregular hrun
  · intro m hm
    cases hm
  · intro es pool e pool' _ hpool he hstep
    obtain ⟨r, hr, rfl⟩ := Option.map_eq_some_iff.1 hstep
    cases r with
    | error e => exact hpool
    | ok made =>
      have hmade := makesFinite_of_regular hpool he made hr
      intro m hm
      rcases List.mem_append.1 hm with hm | hm
      · exact hpool m hm
      · exact hmade m hm

/-! ## Finite amounts -/

section Finite

variable {P : DecimalParser} {m other : Money} {q : ℚ}

/-- A `Money` of a finite amount. -/
def Money.any (m : Money) : AnyMoney := ⟨.finite m.amount, m.currency, m.upper⟩

/-- A result in the range of exponents. -/
structure Normal (q : ℚ) : Prop where
  low : minE ≤ Int.log 10 |decimal q|
  high : Int.log 10 |decimal q| ≤ maxE

theorem Normal.result_eq (h : Normal q) : decimals.result q = .finite (decimal q) := by
  have hround : decimals.round q = decimal q := if_neg fun hlow => absurd h.low (not_le.2 hlow.2)
  have hfits : decimals.Fits q := by
    unfold Format.Fits
    rw [hround]
    simpa [decimals] using h.high
  rw [Format.result_of_fits hfits, hround]

/-- **Within the range of exponents, sums of finite amounts are those of `Money`.** -/
theorem any_add (h : Normal (m.amount + other.amount)) :
    m.any.add other.any = (m.add other).map Money.any := by
  unfold AnyMoney.add Money.add
  have hcurrencies : m.any.currency = other.any.currency ↔ m.currency = other.currency := Iff.rfl
  rw [if_congr hcurrencies rfl rfl]
  by_cases hsame : m.currency = other.currency
  · have hsum : decimals.add m.any.amount other.any.amount =
        .finite (decimal (m.amount + other.amount)) := h.result_eq
    rw [if_pos hsame, hsum, if_pos hsame]
    rfl
  · rw [if_neg hsame, if_neg hsame]
    rfl

theorem any_multiply {factor : Amount} {f : ℚ} (hfactor : toDecimal P factor = .ok (.finite f))
    (h : Normal (m.amount * f)) : m.any.multiply P factor = .ok (m.multiply f).any := by
  have hprod : decimals.mul m.any.amount (.finite f) = .finite (decimal (m.amount * f)) :=
    h.result_eq
  unfold AnyMoney.multiply
  rw [hfactor, Except.map, hprod]
  rfl

end Finite

/-- A parser of plain decimals, to run the calls with. -/
def DecimalParser.reference : DecimalParser where
  parse s :=
    if s = "NaN" then some .nan
    else if s = "Infinity" then some (.infinity false)
    else if s = "-Infinity" then some (.infinity true)
    else (value? s).map texts.result
  parse_value := by
    intro s q hq
    have hnone : ∀ {t}, value? t = none → s ≠ t := by
      rintro t ht rfl
      rw [ht] at hq
      cases hq
    have hnan : s ≠ "NaN" := hnone (by decide +kernel)
    have hinf : s ≠ "Infinity" := hnone (by decide +kernel)
    have hneg : s ≠ "-Infinity" := hnone (by decide +kernel)
    rw [if_neg hnan, if_neg hinf, if_neg hneg, hq]
    rfl
  parse_nan := rfl
  parse_infinity := rfl
  parse_negInfinity := rfl

/-- $19.99, twice that, and the price split seventy to thirty. -/
def sale : List MoneyEvent :=
  [.construct (.text "19.99") "USD", .add 0 0, .allocate 0 [.finite 70, .finite 30]]

theorem amounts_finite_sale :
    ∃ pool, (purse .reference).run sale = some pool ∧ ∀ m ∈ pool, m.amount.IsFinite := by
  have hparse : DecimalParser.reference.parse "19.99" = some (.finite (1999 / 100)) := by
    decide +kernel
  have hprice : (purse .reference).step [] (.construct (.text "19.99") "USD") =
      some [anyMoney (.finite (1999 / 100)) "USD"] := by decide +kernel
  have hdouble : (purse .reference).step [anyMoney (.finite (1999 / 100)) "USD"] (.add 0 0) =
      some [anyMoney (.finite (1999 / 100)) "USD", anyMoney (.finite (3998 / 100)) "USD"] := by
    decide +kernel
  have hregular : (purse .reference).Along (Regular .reference) sale := by
    rw [Machine.along_iff_from]
    refine ⟨?_, fun s₁ h₁ => ⟨?_, fun s₂ h₂ => ⟨?_, fun _ _ => trivial⟩⟩⟩
    · intro v hv
      rw [hparse] at hv
      cases hv
      exact ⟨_, rfl⟩
    · cases hprice.symm.trans h₁
      intro m other a b hm hother ha hb _
      cases hm
      cases hother
      cases ha
      cases hb
      decide +kernel
    · cases hprice.symm.trans h₁
      cases hdouble.symm.trans h₂
      intro m a hm ha _ _
      cases hm
      cases ha
      exact ⟨[70, 30], rfl, by decide +kernel, by decide +kernel, by decide +kernel,
        by decide +kernel, by decide +kernel, by decide +kernel, by decide +kernel⟩
  obtain ⟨pool, hpool⟩ := Option.isSome_iff_exists.1
    (show ((purse .reference).run sale).isSome = true by decide)
  exact ⟨pool, hpool, amounts_finite .reference sale pool hregular hpool⟩

/-- A text and a factor are not checked. -/
theorem infinity_constructed :
    (purse .reference).run [.construct (.text "Infinity") "USD"] =
        some [anyMoney (.infinity false) "USD"] ∧
      (purse .reference).run [.construct (.text "1") "USD", .multiply 0 (.text "NaN")] =
        some [anyMoney (.finite 1) "USD", anyMoney .nan "USD"] ∧
      (purse .reference).run [.construct (.text "1") "USD", .allocate 0 [.finite 1, .nan]] =
        some [anyMoney (.finite 1) "USD", anyMoney .nan "USD", anyMoney .nan "USD"] := by
  decide +kernel

end Intellibiz.Finance
